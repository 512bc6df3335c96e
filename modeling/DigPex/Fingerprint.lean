import DigPex.Concrete
import DigPex.Evolution
import DigPex.Library.UniqueReading
import DigPex.Payee

/-!
# What a fingerprint identifies

The values fed to the hasher, and the bytes the standard library makes of
them, are a stream of prefix codes: counted addresses, counted flags, and a
claim that is told from its absence.  So they are read back in one way, and as
both lists are sorted first, they identify the advertised content up to the
order of addresses and flags.
-/

namespace DigPex

theorem AddressKind.asStr_injective : Function.Injective AddressKind.asStr :=
  Function.LeftInverse.injective AddressKind.ofToken_asStr

theorem Address.parts_injective : Function.Injective fun address : Address =>
    (address.host, address.port, address.kind.asStr) := by
  rintro ⟨host, port, kind⟩ ⟨otherHost, otherPort, otherKind⟩ same
  simp only [Prod.mk.injEq] at same
  obtain ⟨rfl, rfl, kinds⟩ := same
  rw [AddressKind.asStr_injective kinds]

theorem Address.sortKey_injective : Function.Injective Address.sortKey := by
  intro left right same
  obtain ⟨hosts, later⟩ := Prod.mk.inj (toLex.injective same)
  obtain ⟨ports, kinds⟩ := Prod.mk.inj (toLex.injective later)
  exact parts_injective (Prod.ext hosts (Prod.ext ports kinds))

theorem PaymentClaim.wireParts_injective :
    Function.Injective PaymentClaim.wireParts := by
  rintro ⟨address, spki, sig⟩ ⟨otherAddress, otherSpki, otherSig⟩ same
  simpa [wireParts] using same

/-- Two entries advertise the same: the addresses and the flags up to order,
and the payment claim. -/
structure PeerEntry.SameContent (left right : PeerEntry) : Prop where
  addresses : left.addresses.Perm right.addresses
  flags : left.flags.Perm right.flags
  payment : left.payment = right.payment

/-- A way to write the values fed to a hasher, each told from what follows
it. -/
structure FeedCode (Symbol : Type) where
  code : HashInput → List Symbol
  valid : HashInput → Prop
  usize : PrefixCode (fun value => valid (.usize value))
    fun value => code (.usize value)
  u16 : PrefixCode (fun value => valid (.u16 value))
    fun value => code (.u16 value)
  str : PrefixCode (fun _ => True) fun text => code (.str text)
  absent : ∀ rest, code (.u8 0) ≠ code (.usize 3) ++ rest

namespace FeedCode

variable {Symbol : Type} (feed : FeedCode Symbol)

/-- One address. -/
def address (address : Address) : List Symbol :=
  feed.code (.str address.host) ++
    (feed.code (.u16 address.port) ++ feed.code (.str address.kind.asStr))

/-- A list behind its length. -/
def counted {Item : Type} (code : Item → List Symbol) (items : List Item) :
    List Symbol :=
  feed.code (.usize items.length) ++ items.flatMap code

/-- The payment claim, or that there is none. -/
def payment : Option PaymentClaim → List Symbol
  | some claim =>
      feed.counted (fun text => feed.code (.str text)) claim.wireParts
  | none => feed.code (.u8 0)

/-- The stream written for an entry. -/
def stream (entry : PeerEntry) : List Symbol :=
  entry.fingerprintFeed.flatMap feed.code

theorem stream_eq (entry : PeerEntry) :
    feed.stream entry =
      feed.counted feed.address (entry.addresses.insertionSort
          fun left right => left.sortKey ≤ right.sortKey) ++
        (feed.counted (fun text => feed.code (.str text))
            (entry.flags.insertionSort (· ≤ ·)) ++
          feed.payment entry.payment) := by
  have addresses : ∀ items : List Address,
      (items.flatMap fun address => [HashInput.str address.host,
        .u16 address.port, .str address.kind.asStr]).flatMap feed.code =
      items.flatMap feed.address := by
    intro items
    rw [List.flatMap_assoc]
    simp only [List.flatMap_cons, List.flatMap_nil, List.append_nil]
    rfl
  have flags : ∀ items : List String,
      (items.map HashInput.str).flatMap feed.code =
        items.flatMap fun text => feed.code (.str text) := by
    intro items
    rw [List.flatMap_map]
  simp only [stream, PeerEntry.fingerprintFeed, List.flatMap_append,
    List.flatMap_cons, List.flatMap_nil, List.append_nil, addresses, flags,
    counted, List.append_assoc]
  cases entry.payment with
  | none => simp only [payment, List.flatMap_cons, List.flatMap_nil,
      List.append_nil]
  | some claim => simp only [payment, counted, List.flatMap_cons, flags]

theorem address_reads :
    PrefixCode (fun address : Address => feed.valid (.u16 address.port))
      feed.address := by
  have reads := (feed.str.append (feed.u16.append feed.str)).comap
    Address.parts_injective
  intro left right leftRest rightRest leftValid rightValid same
  exact reads ⟨trivial, leftValid, trivial⟩ ⟨trivial, rightValid, trivial⟩ same

theorem payment_inj (three : feed.valid (.usize 3))
    {left right : Option PaymentClaim}
    (same : feed.payment left = feed.payment right) : left = right := by
  have differ : ∀ claim, feed.payment none ≠ feed.payment (some claim) :=
    fun claim => feed.absent _
  cases left with
  | none =>
      cases right with
      | none => rfl
      | some claim => exact absurd same (differ claim)
  | some claim =>
      cases right with
      | none => exact absurd same.symm (differ claim)
      | some other =>
          have reads := feed.usize.counted feed.str
          have parts := (@reads claim.wireParts other.wireParts [] []
            ⟨three, fun _ _ => trivial⟩ ⟨three, fun _ _ => trivial⟩
            (by simpa [payment, counted] using same)).1
          rw [PaymentClaim.wireParts_injective parts]

/-- What a stream needs of an entry: its numbers are valid. -/
structure Fits (entry : PeerEntry) : Prop where
  addressCount : feed.valid (.usize entry.addresses.length)
  ports : ∀ address ∈ entry.addresses, feed.valid (.u16 address.port)
  flagCount : feed.valid (.usize entry.flags.length)
  parts : feed.valid (.usize 3)

theorem stream_eq_iff {left right : PeerEntry} (leftFits : feed.Fits left)
    (rightFits : feed.Fits right) :
    feed.stream left = feed.stream right ↔ left.SameContent right := by
  have addresses := @List.insertionSort_eq_iff_perm _ _ _ _
    Address.sortKey_injective left.addresses right.addresses
  have flags : left.flags.insertionSort (· ≤ ·) =
      right.flags.insertionSort (· ≤ ·) ↔ left.flags.Perm right.flags :=
    List.insertionSort_eq_iff_perm Function.injective_id
  rw [stream_eq, stream_eq]
  constructor
  · intro same
    have addressList := feed.usize.counted feed.address_reads
    have flagList := feed.usize.counted feed.str
    obtain ⟨sameAddresses, later⟩ := addressList
      ⟨by simpa using leftFits.addressCount, by simpa using leftFits.ports⟩
      ⟨by simpa using rightFits.addressCount, by simpa using rightFits.ports⟩
      same
    obtain ⟨sameFlags, last⟩ := flagList
      ⟨by simpa using leftFits.flagCount, fun _ _ => trivial⟩
      ⟨by simpa using rightFits.flagCount, fun _ _ => trivial⟩ later
    exact ⟨addresses.mp sameAddresses, flags.mp sameFlags,
      feed.payment_inj leftFits.parts last⟩
  · intro same
    rw [addresses.mpr same.addresses, flags.mpr same.flags, same.payment]

end FeedCode

theorem notMem_utf8 (text : String) : (255 : UInt8) ∉ utf8 text := by
  intro member
  obtain ⟨character, -, byte⟩ := List.mem_flatMap.mp member
  have value : ∀ number : Nat, (255 : UInt8) = .ofNat number →
      number % 256 = 255 := by
    intro number same
    simpa using (congrArg UInt8.toNat same).symm
  unfold String.utf8EncodeChar at byte
  dsimp only at byte
  split at byte
  · have := value _ (List.mem_singleton.mp byte)
    omega
  · split at byte
    · simp only [List.mem_cons, List.not_mem_nil, or_false] at byte
      rcases byte with byte | byte <;> have := value _ byte <;> omega
    · split at byte
      · simp only [List.mem_cons, List.not_mem_nil, or_false] at byte
        rcases byte with byte | byte | byte <;> have := value _ byte <;> omega
      · simp only [List.mem_cons, List.not_mem_nil, or_false] at byte
        rcases byte with byte | byte | byte | byte <;>
          have := value _ byte <;> omega

theorem length_littleEndian (width value : Nat) :
    (littleEndian width value).length = width := by
  simp [littleEndian]

theorem littleEndian_reads (width : Nat) :
    PrefixCode (fun value => value < 256 ^ width) (littleEndian width) :=
  PrefixCode.of_length (length_littleEndian width)
    fun _ _ leftSmall rightSmall => littleEndian_injective leftSmall rightSmall

/-- The values that the types of the source can hold. -/
def HashInput.InRange : HashInput → Prop
  | usize value => value < 2 ^ 64
  | u16 value => value < 2 ^ 16
  | u8 value => value < 2 ^ 8
  | str _ => True

theorem HashInput.bytes_absent (rest : List UInt8) :
    (u8 0).bytes ≠ (usize 3).bytes ++ rest := by
  intro same
  have lengths := congrArg List.length same
  simp only [bytes, List.length_append, length_littleEndian] at lengths
  omega

/-- The stream of bytes. -/
def byteFeed : FeedCode UInt8 :=
  { code := HashInput.bytes
    valid := HashInput.InRange
    usize := littleEndian_reads 8
    u16 := littleEndian_reads 2
    str := PrefixCode.of_terminator notMem_utf8 utf8_injective
    absent := HashInput.bytes_absent }

theorem HashInput.single_reads {Item : Type} {made : Item → HashInput}
    (injective : Function.Injective made) :
    PrefixCode (fun _ => True) fun item => [made item] :=
  PrefixCode.of_length (fun _ => rfl) fun _ _ _ _ same =>
    injective (List.singleton_inj.mp same)

theorem HashInput.single_absent (rest : List HashInput) :
    [u8 0] ≠ [usize 3] ++ rest := by
  simp

/-- The stream of the values themselves. -/
def valueFeed : FeedCode HashInput :=
  { code := fun value => [value]
    valid := fun _ => True
    usize := HashInput.single_reads fun _ _ => HashInput.usize.inj
    u16 := HashInput.single_reads fun _ _ => HashInput.u16.inj
    str := HashInput.single_reads fun _ _ => HashInput.str.inj
    absent := HashInput.single_absent }

/-- The values fed to the hasher identify the advertised content, in or out of
range. -/
theorem fingerprintFeed_eq_iff (left right : PeerEntry) :
    left.fingerprintFeed = right.fingerprintFeed ↔ left.SameContent right := by
  have fits : ∀ entry, valueFeed.Fits entry :=
    fun _ => ⟨trivial, fun _ _ => trivial, trivial, trivial⟩
  have same : ∀ entry : PeerEntry,
      valueFeed.stream entry = entry.fingerprintFeed :=
    fun entry => List.flatMap_singleton' entry.fingerprintFeed
  rw [← valueFeed.stream_eq_iff (fits left) (fits right), same, same]

/-- An entry as the source can hold it: the ports are `u16`, and the lengths of
both lists `usize`. -/
structure PeerEntry.Representable (entry : PeerEntry) : Prop where
  ports : ∀ address ∈ entry.addresses, address.InRange
  addressCount : entry.addresses.length < 2 ^ 64
  flagCount : entry.flags.length < 2 ^ 64

theorem PeerEntry.Representable.fits {entry : PeerEntry}
    (representable : entry.Representable) : byteFeed.Fits entry :=
  ⟨representable.addressCount, representable.ports, representable.flagCount,
    by change 3 < 2 ^ 64; norm_num⟩

/-- The bytes fed to the hasher identify exactly the advertised content: they
are equal for two entries exactly when these have the same addresses and the
same flags, each up to order, and the same payment claim or none.  Nothing
else of the entries matters. -/
theorem fingerprint_bytes_identify_content (left right : PeerEntry)
    (leftFits : left.Representable) (rightFits : right.Representable) :
    left.fingerprintFeed.flatMap HashInput.bytes =
        right.fingerprintFeed.flatMap HashInput.bytes ↔
      left.addresses.Perm right.addresses ∧ left.flags.Perm right.flags ∧
        left.payment = right.payment := by
  have identified := byteFeed.stream_eq_iff leftFits.fits rightFits.fits
  constructor
  · intro same
    obtain ⟨addresses, flags, payment⟩ := identified.mp same
    exact ⟨addresses, flags, payment⟩
  · rintro ⟨addresses, flags, payment⟩
    exact identified.mpr ⟨addresses, flags, payment⟩

/-- The same two addresses in another order, of another peer at another
time. -/
theorem fingerprint_bytes_ignore_order :
    let left := (exampleEntry 'c' 1000 9444).withAddress
      (.direct "10.0.0.2" 9445)
    let right := ((PeerEntry.new (exampleId 'd') "other" 7 .relay).withAddress
      (.direct "10.0.0.2" 9445)).withAddress (.direct "10.0.0.1" 9444)
    left.fingerprintFeed.flatMap HashInput.bytes =
      right.fingerprintFeed.flatMap HashInput.bytes := by
  intro left right
  have leftFits : left.Representable :=
    ⟨by simp [left, exampleEntry, PeerEntry.withAddress, PeerEntry.new,
      Address.InRange, Address.direct], by decide, by decide⟩
  have rightFits : right.Representable :=
    ⟨by simp [right, PeerEntry.withAddress, PeerEntry.new, Address.InRange,
      Address.direct], by decide, by decide⟩
  exact (fingerprint_bytes_identify_content left right leftFits
    rightFits).mpr ⟨List.Perm.swap _ _ _, .refl _, rfl⟩

end DigPex
