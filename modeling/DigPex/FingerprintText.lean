import DigPex.Fingerprint

/-!
# What the display text identifies

The display text joins the advertised content by separators it does not
escape.  Where no string contains them it identifies the same content as the
hash; where one does, two advertisements can share a text.
-/

namespace DigPex

/-! ## The parts of a text -/

theorem repr_injective : Function.Injective Nat.repr := by
  intro left right same
  have digits := congrArg String.toList same
  rw [Nat.toList_repr, Nat.toList_repr] at digits
  rw [← Nat.ofDigitChars_ten_toDigits (n := left), digits,
    Nat.ofDigitChars_ten_toDigits]

theorem notMem_repr {separator : Char} (other : separator.isDigit = false)
    (number : Nat) : separator ∉ (Nat.repr number).toList := by
  rw [Nat.toList_repr]
  intro member
  have digit := Nat.isDigit_of_mem_toDigits (by decide) (by decide) member
  rw [other] at digit
  cases digit

theorem notMem_asStr (kind : AddressKind) :
    '|' ∉ kind.asStr.toList ∧ ',' ∉ kind.asStr.toList ∧
      '#' ∉ kind.asStr.toList := by
  cases kind <;> decide

namespace Address

theorem toList_fingerprint (address : Address) :
    address.fingerprint.toList = address.host.toList ++
      '|' :: ((Nat.repr address.port).toList ++
        '|' :: address.kind.asStr.toList) := by
  simp [fingerprint]

theorem fingerprint_injective : Function.Injective fingerprint := by
  intro left right same
  have texts := congrArg String.toList same
  rw [toList_fingerprint, toList_fingerprint, ← List.cons_append,
    ← List.append_assoc, ← List.cons_append, ← List.append_assoc] at texts
  obtain ⟨fronts, kinds⟩ := List.append_cons_inj_of_notMem_right
    (notMem_asStr left.kind).1 (notMem_asStr right.kind).1 texts
  obtain ⟨hosts, ports⟩ := List.append_cons_inj_of_notMem_right
    (notMem_repr rfl left.port) (notMem_repr rfl right.port) fronts
  exact parts_injective (Prod.ext (String.toList_injective hosts)
    (Prod.ext (repr_injective (String.toList_injective ports))
      (String.toList_injective kinds)))

theorem notMem_fingerprint {address : Address}
    (host : ',' ∉ address.host.toList ∧ '#' ∉ address.host.toList) :
    ',' ∉ address.fingerprint.toList ∧ '#' ∉ address.fingerprint.toList := by
  obtain ⟨-, comma, hash⟩ := notMem_asStr address.kind
  have commaPort : ',' ∉ (Nat.repr address.port).toList :=
    notMem_repr rfl address.port
  have hashPort : '#' ∉ (Nat.repr address.port).toList :=
    notMem_repr rfl address.port
  simp only [toList_fingerprint, List.mem_append, List.mem_cons, not_or]
  exact ⟨⟨host.1, by decide, commaPort, by decide, comma⟩,
    ⟨host.2, by decide, hashPort, by decide, hash⟩⟩

end Address

/-- The text of the payment claim, empty without one. -/
def paymentText (payment : Option PaymentClaim) : String :=
  (payment.map fun claim =>
    String.intercalate "|" claim.wireParts).getD ""

theorem toList_paymentText_some (claim : PaymentClaim) :
    (paymentText (some claim)).toList = claim.address.toList ++
      '|' :: (claim.spki.toList ++ '|' :: claim.sig.toList) := by
  simp [paymentText, PaymentClaim.wireParts]

theorem paymentText_inj {left right : Option PaymentClaim}
    (leftFree : ∀ claim, left = some claim →
      '|' ∉ claim.address.toList ∧ '|' ∉ claim.spki.toList)
    (rightFree : ∀ claim, right = some claim →
      '|' ∉ claim.address.toList ∧ '|' ∉ claim.spki.toList)
    (same : (paymentText left).toList = (paymentText right).toList) :
    left = right := by
  have occupied : ∀ claim,
      (paymentText (some claim)).toList ≠ (paymentText none).toList := by
    intro claim
    rw [toList_paymentText_some]
    simp [paymentText]
  cases left with
  | none =>
      cases right with
      | none => rfl
      | some claim => exact absurd same.symm (occupied claim)
  | some claim =>
      cases right with
      | none => exact absurd same (occupied claim)
      | some other =>
          rw [toList_paymentText_some, toList_paymentText_some] at same
          obtain ⟨addresses, later⟩ := List.append_cons_inj_of_notMem_left
            (leftFree claim rfl).1 (rightFree other rfl).1 same
          obtain ⟨spkis, sigs⟩ := List.append_cons_inj_of_notMem_left
            (leftFree claim rfl).2 (rightFree other rfl).2 later
          have parts : claim.wireParts = other.wireParts := by
            simp only [PaymentClaim.wireParts,
              String.toList_injective addresses,
              String.toList_injective spkis, String.toList_injective sigs]
          rw [PaymentClaim.wireParts_injective parts]

namespace PeerEntry

/-- The sorted texts of the addresses. -/
def addressTexts (entry : PeerEntry) : List String :=
  (entry.addresses.map Address.fingerprint).insertionSort (· ≤ ·)

/-- The sorted flags. -/
def flagTexts (entry : PeerEntry) : List String :=
  entry.flags.insertionSort (· ≤ ·)

theorem toList_fingerprint (entry : PeerEntry) :
    entry.fingerprint.toList =
      [','].intercalate (entry.addressTexts.map String.toList) ++
        '#' :: ([','].intercalate (entry.flagTexts.map String.toList) ++
          '#' :: (paymentText entry.payment).toList) := by
  simp [fingerprint, addressTexts, flagTexts, paymentText]

/-- No string of an entry contains a separator by which its text could be
read in another way: hosts and flags contain no comma and no hash, a claim's
address and key no bar, and the flags are not one empty flag. -/
structure Separable (entry : PeerEntry) : Prop where
  hosts : ∀ address ∈ entry.addresses,
    ',' ∉ address.host.toList ∧ '#' ∉ address.host.toList
  flags : ∀ flag ∈ entry.flags, ',' ∉ flag.toList ∧ '#' ∉ flag.toList
  notBlank : entry.flags ≠ [""]
  claim : ∀ claim, entry.payment = some claim →
    '|' ∉ claim.address.toList ∧ '|' ∉ claim.spki.toList

namespace Separable

variable {entry : PeerEntry} (separable : entry.Separable)

include separable

theorem notMem_addressTexts :
    ∀ part ∈ entry.addressTexts.map String.toList,
      ',' ∉ part ∧ '#' ∉ part := by
  intro part member
  obtain ⟨text, listed, rfl⟩ := List.mem_map.mp member
  rw [addressTexts, List.mem_insertionSort] at listed
  obtain ⟨address, known, rfl⟩ := List.mem_map.mp listed
  exact Address.notMem_fingerprint (separable.hosts address known)

theorem notMem_flagTexts :
    ∀ part ∈ entry.flagTexts.map String.toList,
      ',' ∉ part ∧ '#' ∉ part := by
  intro part member
  obtain ⟨flag, listed, rfl⟩ := List.mem_map.mp member
  rw [flagTexts, List.mem_insertionSort] at listed
  exact separable.flags flag listed

theorem flagTexts_ne : entry.flagTexts.map String.toList ≠ [[]] := by
  intro blank
  have one := List.map_eq_singleton_iff.mp blank
  obtain ⟨flag, only, empty⟩ := one
  have flags := (List.perm_insertionSort (· ≤ ·) entry.flags).symm
  rw [flagTexts] at only
  rw [only, List.perm_singleton, String.toList_eq_nil_iff.mp empty] at flags
  exact separable.notBlank flags

end Separable

theorem addressTexts_ne (entry : PeerEntry) :
    entry.addressTexts.map String.toList ≠ [[]] := by
  intro blank
  have member : [] ∈ entry.addressTexts.map String.toList := by simp [blank]
  obtain ⟨text, listed, empty⟩ := List.mem_map.mp member
  rw [addressTexts, List.mem_insertionSort] at listed
  obtain ⟨address, -, rfl⟩ := List.mem_map.mp listed
  simp [Address.toList_fingerprint] at empty

theorem SameContent.fingerprint_eq {left right : PeerEntry}
    (same : left.SameContent right) :
    left.fingerprint = right.fingerprint := by
  have addresses : left.addressTexts = right.addressTexts :=
    (List.insertionSort_eq_iff_perm Function.injective_id).mpr
      (same.addresses.map Address.fingerprint)
  have flags : left.flagTexts = right.flagTexts :=
    (List.insertionSort_eq_iff_perm Function.injective_id).mpr same.flags
  apply String.toList_injective
  rw [toList_fingerprint, toList_fingerprint, addresses, flags, same.payment]

theorem Separable.sameContent {left right : PeerEntry}
    (leftSeparable : left.Separable) (rightSeparable : right.Separable)
    (same : left.fingerprint = right.fingerprint) :
    left.SameContent right := by
  have texts := congrArg String.toList same
  rw [toList_fingerprint, toList_fingerprint] at texts
  have hash : ∀ parts : List (List Char),
      (∀ part ∈ parts, ',' ∉ part ∧ '#' ∉ part) →
        '#' ∉ [','].intercalate parts :=
    fun parts free => List.notMem_intercalate_singleton (by decide)
      fun part member => (free part member).2
  obtain ⟨addressLists, later⟩ := List.append_cons_inj_of_notMem_left
    (hash _ leftSeparable.notMem_addressTexts)
    (hash _ rightSeparable.notMem_addressTexts) texts
  obtain ⟨flagLists, payments⟩ := List.append_cons_inj_of_notMem_left
    (hash _ leftSeparable.notMem_flagTexts)
    (hash _ rightSeparable.notMem_flagTexts) later
  have addressTexts := List.map_injective_iff.mpr
    (fun _ _ => String.toList_injective)
    (List.intercalate_singleton_inj
      (fun part member => (leftSeparable.notMem_addressTexts part member).1)
      (fun part member => (rightSeparable.notMem_addressTexts part member).1)
      left.addressTexts_ne right.addressTexts_ne addressLists)
  have flagTexts := List.map_injective_iff.mpr
    (fun _ _ => String.toList_injective)
    (List.intercalate_singleton_inj
      (fun part member => (leftSeparable.notMem_flagTexts part member).1)
      (fun part member => (rightSeparable.notMem_flagTexts part member).1)
      leftSeparable.flagTexts_ne rightSeparable.flagTexts_ne flagLists)
  have addresses := (List.insertionSort_eq_iff_perm
    Function.injective_id).mp addressTexts
  exact ⟨(List.map_perm_map_iff Address.fingerprint_injective).mp addresses,
    (List.insertionSort_eq_iff_perm Function.injective_id).mp flagTexts,
    paymentText_inj leftSeparable.claim rightSeparable.claim payments⟩

theorem fingerprint_eq_of_feed {left right : PeerEntry}
    (same : left.fingerprintFeed = right.fingerprintFeed) :
    left.fingerprint = right.fingerprint :=
  ((fingerprintFeed_eq_iff left right).mp same).fingerprint_eq

theorem Separable.agrees {left right : PeerEntry}
    (leftSeparable : left.Separable) (rightSeparable : right.Separable) :
    left.fingerprint = right.fingerprint ↔
      left.fingerprintFeed = right.fingerprintFeed := by
  refine ⟨fun same => ?_, fingerprint_eq_of_feed⟩
  exact (fingerprintFeed_eq_iff left right).mpr
    (leftSeparable.sameContent rightSeparable same)

/-! ## Which strings make texts ambiguous -/

/-- Every string of an entry is spelled with some characters, and a flag is
empty only where that is allowed. -/
structure SpelledIn (allowed : Char → Prop) (blank : Prop)
    (entry : PeerEntry) : Prop where
  hosts : ∀ address ∈ entry.addresses,
    ∀ character ∈ address.host.toList, allowed character
  flags : ∀ flag ∈ entry.flags, ∀ character ∈ flag.toList, allowed character
  notBlank : ∀ flag ∈ entry.flags, flag = "" → blank
  claim : ∀ claim, entry.payment = some claim →
    ∀ part ∈ claim.wireParts, ∀ character ∈ part.toList, allowed character

theorem SpelledIn.separable {allowed : Char → Prop} {blank : Prop}
    {entry : PeerEntry} (spelled : entry.SpelledIn allowed blank)
    (comma : ¬allowed ',') (hash : ¬allowed '#') (bar : ¬allowed '|')
    (occupied : ¬blank) : entry.Separable := by
  constructor
  · intro address member
    exact ⟨fun found => comma (spelled.hosts address member _ found),
      fun found => hash (spelled.hosts address member _ found)⟩
  · intro flag member
    exact ⟨fun found => comma (spelled.flags flag member _ found),
      fun found => hash (spelled.flags flag member _ found)⟩
  · intro single
    exact occupied (spelled.notBlank "" (by simp [single]) rfl)
  · intro claim carried
    exact ⟨fun found => bar (spelled.claim claim carried claim.address
        (by simp [PaymentClaim.wireParts]) _ found),
      fun found => bar (spelled.claim claim carried claim.spki
        (by simp [PaymentClaim.wireParts]) _ found)⟩

/-- An entry without addresses. -/
def bare (flags : List String) (payment : Option PaymentClaim) : PeerEntry :=
  { PeerEntry.new (exampleId 'c') "network" 1000 .direct with
    flags := flags
    payment := payment }

theorem spelledIn_bare {allowed : Char → Prop} {blank : Prop}
    {flags : List String} {payment : Option PaymentClaim}
    (spelled : ∀ flag ∈ flags, ∀ character ∈ flag.toList, allowed character)
    (notBlank : ∀ flag ∈ flags, flag = "" → blank)
    (claim : ∀ claim, payment = some claim → ∀ part ∈ claim.wireParts,
      ∀ character ∈ part.toList, allowed character) :
    (bare flags payment).SpelledIn allowed blank :=
  ⟨List.forall_mem_nil _, spelled, notBlank, claim⟩

/-- Two entries share a text and advertise different things. -/
def Collide (left right : PeerEntry) : Prop :=
  left.fingerprint = right.fingerprint ∧
    left.fingerprintFeed ≠ right.fingerprintFeed

instance (left right : PeerEntry) : Decidable (left.Collide right) :=
  inferInstanceAs (Decidable (_ ∧ _))

/-- No flag and one empty flag. -/
theorem collide_blank : (bare [] none).Collide (bare [""] none) := by
  decide +kernel

/-- Two flags, and one that contains their text. -/
theorem collide_comma :
    (bare [",", ","] none).Collide (bare [",,,"] none) := by
  decide +kernel

/-- A separator of sections in a flag, and at the front of a claim. -/
theorem collide_hash :
    (bare ["#"] (some ⟨"", "", ""⟩)).Collide
      (bare [] (some ⟨"#", "", ""⟩)) := by
  decide +kernel

/-- A separator of a claim's parts, in the first part or the second. -/
theorem collide_bar :
    (bare [] (some ⟨"|", "", ""⟩)).Collide
      (bare [] (some ⟨"", "|", ""⟩)) := by
  decide +kernel

end PeerEntry

/-- When the two fingerprints agree.  Entries whose hash inputs are equal always
have the same text.  The converse holds for separable entries, and of course
for entries that advertise the same.  Among all entries spelled with some
characters, it holds exactly when these include none of the three separators
and no flag is empty. -/
theorem fingerprint_agrees_iff (left right : PeerEntry)
    (allowed : Char → Prop) (blank : Prop) :
    (left.fingerprintFeed = right.fingerprintFeed →
      left.fingerprint = right.fingerprint) ∧
    (left.Separable ∧ right.Separable ∨ left.SameContent right →
      (left.fingerprint = right.fingerprint ↔
        left.fingerprintFeed = right.fingerprintFeed)) ∧
    ((∀ first second : PeerEntry, first.SpelledIn allowed blank →
        second.SpelledIn allowed blank →
          (first.fingerprint = second.fingerprint ↔
            first.fingerprintFeed = second.fingerprintFeed)) ↔
      ¬allowed ',' ∧ ¬allowed '#' ∧ ¬allowed '|' ∧ ¬blank) := by
  refine ⟨PeerEntry.fingerprint_eq_of_feed, ?_, ?_, ?_⟩
  · rintro (⟨leftSeparable, rightSeparable⟩ | same)
    · exact leftSeparable.agrees rightSeparable
    · exact ⟨fun _ => (fingerprintFeed_eq_iff left right).mpr same,
        PeerEntry.fingerprint_eq_of_feed⟩
  · intro agreed
    have noCollision : ∀ first second : PeerEntry, first.Collide second →
        first.SpelledIn allowed blank → second.SpelledIn allowed blank →
          False :=
      fun first second collide firstSpelled secondSpelled =>
        collide.2 ((agreed first second firstSpelled secondSpelled).mp
          collide.1)
    refine ⟨fun comma => noCollision _ _ PeerEntry.collide_comma ?_ ?_,
      fun hash => noCollision _ _ PeerEntry.collide_hash ?_ ?_,
      fun bar => noCollision _ _ PeerEntry.collide_bar ?_ ?_,
      fun empty => noCollision _ _ PeerEntry.collide_blank ?_ ?_⟩
    · exact PeerEntry.spelledIn_bare (by simpa using comma) (by simp)
        (by simp)
    · exact PeerEntry.spelledIn_bare (by simpa using comma) (by simp)
        (by simp)
    · exact PeerEntry.spelledIn_bare (by simpa using hash) (by simp)
        (by simp [PaymentClaim.wireParts])
    · exact PeerEntry.spelledIn_bare (by simp) (by simp)
        (by simpa [PaymentClaim.wireParts] using hash)
    · exact PeerEntry.spelledIn_bare (by simp) (by simp)
        (by simpa [PaymentClaim.wireParts] using bar)
    · exact PeerEntry.spelledIn_bare (by simp) (by simp)
        (by simpa [PaymentClaim.wireParts] using bar)
    · exact PeerEntry.spelledIn_bare (by simp) (by simp)
        (by simp)
    · exact PeerEntry.spelledIn_bare (by simp) (by simpa using empty)
        (by simp)
  · rintro ⟨comma, hash, bar, occupied⟩ first second firstSpelled
      secondSpelled
    exact (firstSpelled.separable comma hash bar occupied).agrees
      (secondSpelled.separable comma hash bar occupied)

/-- Two separable entries whose addresses stand in another order. -/
theorem fingerprint_agrees_reordered :
    let left := (exampleEntry 'c' 1000 9444).withAddress
      (.direct "10.0.0.2" 9445)
    let right := ((PeerEntry.new (exampleId 'd') "other" 7 .relay).withAddress
      (.direct "10.0.0.2" 9445)).withAddress (.direct "10.0.0.1" 9444)
    left.fingerprint = right.fingerprint := by
  intro left right
  have separable : left.Separable ∧ right.Separable := by
    constructor
    · exact ⟨by decide, by decide, by decide, by simp [left, exampleEntry,
        PeerEntry.withAddress, PeerEntry.new]⟩
    · exact ⟨by decide, by decide, by decide, by simp [right,
        PeerEntry.withAddress, PeerEntry.new]⟩
  refine ((fingerprint_agrees_iff left right (fun _ => True) True).2.1
    (.inl separable)).mpr ?_
  decide +kernel

/-- One flag that contains a comma, and two flags: the texts are equal, and
the hashes are not. -/
theorem comma_in_flag_collides :
    let left := (exampleEntry 'c' 1000 9444)
    { left with flags := ["relay,storage"] }.fingerprint =
        { left with flags := ["relay", "storage"] }.fingerprint ∧
      { left with flags := ["relay,storage"] }.fingerprintFeed ≠
        { left with flags := ["relay", "storage"] }.fingerprintFeed ∧
      @PeerEntry.fingerprintHash sipHasher
          { left with flags := ["relay,storage"] } ≠
        @PeerEntry.fingerprintHash sipHasher
          { left with flags := ["relay", "storage"] } := by
  decide +kernel

end DigPex
