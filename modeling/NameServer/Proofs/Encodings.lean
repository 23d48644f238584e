import NameServer.Challenge.Digest
import NameServer.Proofs.Failure
import NameServer.Text.Utf8

/-!
# Texts that encode bytes

Every three bytes are written as four symbols of six bits. The bits of one or
two bytes at the end are filled up with zeros. A check that finds nothing wrong
with a text is one that reads what was written so, and the length that it tells
is the number of the bytes.
-/

namespace NameServer

theorem Text.toUtf8_injective {a b : String} (h : toUtf8 a = toUtf8 b) : a = b :=
  String.toByteArray_inj.mp (ByteArray.ext (Array.toList_inj.mp h))

theorem Text.toUtf8_ofList : ∀ {cs : List Char}, (∀ c ∈ cs, c.toNat < 128) →
    toUtf8 (String.ofList cs) = cs.map fun c => c.toNat.toUInt8
  | [], _ => rfl
  | c :: cs, h => by
    obtain ⟨hc, hcs⟩ := List.forall_mem_cons.mp h
    have hsize : c.utf8Size = 1 := by
      rw [Char.utf8Size_eq_one_iff, UInt32.le_iff_toNat_le]
      exact Nat.le_of_lt_succ hc
    have hrest := toUtf8_ofList hcs
    rw [toUtf8, String.toByteArray_ofList] at hrest ⊢
    rw [List.utf8Encode_cons, ByteArray.data_append, Array.toList_append, hrest, List.utf8Encode_singleton,
      String.utf8EncodeChar_eq_singleton hsize]
    rfl

namespace Digest

/-! ## Encoding -/

/-- The symbols in the order of their values. -/
def alphabet : List Char := "ABCDEFGHIJKLMNOPQRSTUVWXYZabcdefghijklmnopqrstuvwxyz0123456789-_".toList

def symbol (value : Nat) : Char := alphabet.getD value 'A'

/-- The values of the symbols for a list of bytes. -/
def sextets : List UInt8 → List Nat
  | a :: b :: c :: bytes =>
    let n := a.toNat * 65536 + b.toNat * 256 + c.toNat
    n / 262144 :: n / 4096 % 64 :: n / 64 % 64 :: n % 64 :: sextets bytes
  | [a, b] =>
    let n := a.toNat * 65536 + b.toNat * 256
    [n / 262144, n / 4096 % 64, n / 64 % 64]
  | [a] =>
    let n := a.toNat * 65536
    [n / 262144, n / 4096 % 64]
  | [] => []

def encode (bytes : List UInt8) : String := String.ofList ((sextets bytes).map symbol)

example : encode [255, 239, 190, 255, 224] = "_---_-A" := by decide +kernel

/-- The bytes that values of six bits write. -/
def ofSextets : List Nat → List UInt8
  | a :: b :: c :: d :: values =>
    (a * 4 + b / 16).toUInt8 :: (b % 16 * 16 + c / 4).toUInt8 :: (c % 4 * 64 + d).toUInt8 :: ofSextets values
  | [a, b, c] => [(a * 4 + b / 16).toUInt8, (b % 16 * 16 + c / 4).toUInt8]
  | [a, b] => [(a * 4 + b / 16).toUInt8]
  | _ => []

/-- The bits are those of whole bytes, and zeros. -/
def Whole : List Nat → Prop
  | _ :: _ :: _ :: _ :: values => Whole values
  | [_, _, c] => c % 4 = 0
  | [_, b] => b % 16 = 0
  | [_] => False
  | [] => True

theorem lt_of_mem_sextets {value : Nat} : ∀ {bytes : List UInt8}, value ∈ sextets bytes → value < 64
  | a :: b :: c :: bytes, h => by
    have ha := a.toNat_lt
    have hb := b.toNat_lt
    have hc := c.toNat_lt
    simp only [sextets, List.mem_cons] at h
    rcases h with h | h | h | h | h
    · omega
    · omega
    · omega
    · omega
    · exact lt_of_mem_sextets h
  | [a, b], h => by
    have ha := a.toNat_lt
    have hb := b.toNat_lt
    simp only [sextets, List.mem_cons, List.not_mem_nil, or_false] at h
    omega
  | [a], h => by
    have ha := a.toNat_lt
    simp only [sextets, List.mem_cons, List.not_mem_nil, or_false] at h
    omega
  | [], h => nomatch h

theorem whole_sextets : ∀ bytes : List UInt8, Whole (sextets bytes)
  | _ :: _ :: _ :: bytes => whole_sextets bytes
  | [a, b] => by
    show (a.toNat * 65536 + b.toNat * 256) / 64 % 64 % 4 = 0
    omega
  | [a] => by
    show a.toNat * 65536 / 4096 % 64 % 16 = 0
    omega
  | [] => trivial

theorem length_sextets : ∀ bytes : List UInt8, (sextets bytes).length * 3 / 4 = bytes.length
  | _ :: _ :: _ :: bytes => by
    have ih := length_sextets bytes
    simp only [sextets, List.length_cons]
    omega
  | [_, _] => by simp [sextets]
  | [_] => by simp [sextets]
  | [] => rfl

theorem sextets_ofSextets : ∀ {values : List Nat}, (∀ value ∈ values, value < 64) → Whole values →
    sextets (ofSextets values) = values
  | a :: b :: c :: d :: values, hlt, hwhole => by
    simp only [List.forall_mem_cons] at hlt
    obtain ⟨ha, hb, hc, hd, hvalues⟩ := hlt
    have ih := sextets_ofSextets hvalues hwhole
    simp [ofSextets, sextets, ih]
    omega
  | [a, b, c], hlt, hwhole => by
    have hzero : c % 4 = 0 := hwhole
    simp only [List.forall_mem_cons] at hlt
    obtain ⟨ha, hb, hc, _⟩ := hlt
    simp [ofSextets, sextets]
    omega
  | [a, b], hlt, hwhole => by
    have hzero : b % 16 = 0 := hwhole
    simp only [List.forall_mem_cons] at hlt
    obtain ⟨ha, hb, _⟩ := hlt
    simp [ofSextets, sextets]
    omega
  | [_], _, hwhole => hwhole.elim
  | [], _, _ => rfl

/-! ## Checking -/

theorem whole_iff : ∀ values : List Nat, Whole values ↔ values.length % 4 ≠ 1 ∧ ∀ last ∈ values.getLast?,
    (values.length % 4 = 2 → last % 16 = 0) ∧ (values.length % 4 = 3 → last % 4 = 0)
  | _ :: _ :: _ :: _ :: value :: values => by
    have ih := whole_iff (value :: values)
    rw [Whole, ih]
    simp only [List.getLast?_cons_cons, List.length_cons, Nat.add_assoc, Nat.reduceAdd]
    have hlength : ∀ n : Nat, (n + 5) % 4 = (n + 1) % 4 := by omega
    simp only [hlength]
  | [_, _, _, _] => by simp [Whole]
  | [_, _, _] => by simp [Whole]
  | [_, _] => by simp [Whole]
  | [_] => by simp [Whole]
  | [] => by simp [Whole]

theorem checkLength_ok_iff (bytes : List UInt8) : checkLength bytes = .ok () ↔ bytes.length % 4 ≠ 1 := by
  unfold checkLength
  split
  · next hlength => exact iff_of_true rfl hlength
  · next hlength =>
    refine iff_of_false ?_ hlength
    cases hlast : bytes.getLast? with
    | none =>
      rw [List.getLast?_eq_none_iff.mp hlast] at hlength
      exact absurd (by decide) hlength
    | some last =>
      simp only
      split <;> simp

theorem checkSymbols_ok_iff : ∀ (offset : Nat) (bytes : List UInt8),
    checkSymbols offset bytes = .ok () ↔ ∀ byte ∈ bytes, isSymbol byte = true
  | _, [] => by simp [checkSymbols]
  | offset, byte :: bytes => by
    rw [checkSymbols, List.forall_mem_cons, ← checkSymbols_ok_iff (offset + 1) bytes]
    cases isSymbol byte <;> simp

/-- After padding nothing is right. -/
theorem checkBlock_padded (start padded : Nat) : ∀ (index : Nat) (bytes : List UInt8),
    checkBlock start index (some padded) bytes ≠ .ok ()
  | _, [] => by simp [checkBlock]
  | index, byte :: bytes => by
    have ih := checkBlock_padded start padded (index + 1) bytes
    rw [checkBlock]
    split
    · split
      · simp
      · exact ih
    · simp

theorem checkBlock_ok_iff (start : Nat) : ∀ (index : Nat) (bytes : List UInt8),
    checkBlock start index none bytes = .ok () ↔ ∀ byte ∈ bytes, isSymbol byte = true
  | _, [] => by simp [checkBlock]
  | index, byte :: bytes => by
    have ih := checkBlock_ok_iff start (index + 1) bytes
    rw [checkBlock, List.forall_mem_cons, ← ih]
    split
    · next hpad =>
      have hsymbol : isSymbol byte = false := by
        rw [hpad]
        rfl
      have hpadded : checkBlock start (index + 1) (some (start + index)) bytes ≠ .ok () := checkBlock_padded start _ _ _
      split <;> simp [hsymbol, hpadded]
    · cases isSymbol byte <;> simp

def valueOf (byte : UInt8) : Nat := (value? byte).getD 0

theorem checkUnused_ok_iff (bytes : List UInt8) : checkUnused bytes = .ok () ↔ ∀ last ∈ bytes.getLast?,
    (bytes.length % 4 = 2 → valueOf last % 16 = 0) ∧ (bytes.length % 4 = 3 → valueOf last % 4 = 0) := by
  unfold checkUnused valueOf
  cases bytes.getLast? with
  | none => simp
  | some last =>
    simp only [Option.mem_def, Option.some.injEq, forall_eq']
    split
    · next hlength => simp [hlength]
    · next hlength => simp [hlength]
    · next htwo hthree =>
      rw [if_pos (Nat.mod_one _)]
      exact iff_of_true rfl ⟨fun h => (htwo h).elim, fun h => (hthree h).elim⟩

theorem decodedLength_ok_iff (bytes : List UInt8) (length : Nat) : decodedLength bytes = .ok length ↔
    (∀ byte ∈ bytes, isSymbol byte = true) ∧ Whole (bytes.map valueOf) ∧ bytes.length * 3 / 4 = length := by
  have hwhole : Whole (bytes.map valueOf) ↔ checkLength bytes = .ok () ∧ checkUnused bytes = .ok () := by
    rw [whole_iff, checkLength_ok_iff, checkUnused_ok_iff]
    simp only [List.length_map, List.getLast?_map, Option.mem_def, Option.map_eq_some_iff, forall_exists_index, and_imp,
      forall_apply_eq_imp_iff₂]
  -- whatever the block that is looked at last, all symbols are looked at
  have hblocks : ∀ count, (∀ byte ∈ bytes, isSymbol byte = true) ↔ checkSymbols 0 (bytes.take count) = .ok () ∧
      checkBlock count 0 none (bytes.drop count) = .ok () := by
    intro count
    rw [checkSymbols_ok_iff, checkBlock_ok_iff, ← List.forall_mem_append, List.take_append_drop]
  rw [hwhole, hblocks ((bytes.length - 1) / 8 * 8), decodedLength]
  constructor
  · intro h
    obtain ⟨_, hlength, h⟩ := (bind_ok_iff _ _ _).mp h
    obtain ⟨_, hsymbols, h⟩ := (bind_ok_iff _ _ _).mp h
    obtain ⟨_, hblock, h⟩ := (bind_ok_iff _ _ _).mp h
    obtain ⟨_, hunused, h⟩ := (bind_ok_iff _ _ _).mp h
    exact ⟨⟨hsymbols, hblock⟩, ⟨hlength, hunused⟩, Except.ok.inj h⟩
  · rintro ⟨⟨hsymbols, hblock⟩, ⟨hlength, hunused⟩, rfl⟩
    simp only [hlength, hsymbols, hblock, hunused, ok_bind]
    rfl

/-! ## Symbols -/

def symbolByte (value : Nat) : UInt8 := (symbol value).toNat.toUInt8

theorem symbol_spec : ∀ value, value < 64 → (symbol value).toNat < 128 ∧ value? (symbolByte value) = some value := by
  decide +kernel

theorem value?_spec : ∀ n, n < 256 → ∀ value ∈ value? (UInt8.ofNat n),
    value < 64 ∧ symbolByte value = UInt8.ofNat n := by
  decide +kernel

theorem map_symbolByte_valueOf {bytes : List UInt8} (h : ∀ byte ∈ bytes, isSymbol byte = true) :
    (bytes.map valueOf).map symbolByte = bytes ∧ ∀ value ∈ bytes.map valueOf, value < 64 := by
  have hbyte : ∀ byte ∈ bytes, valueOf byte < 64 ∧ symbolByte (valueOf byte) = byte := by
    intro byte hmem
    obtain ⟨value, hvalue⟩ := Option.isSome_iff_exists.mp (h byte hmem)
    have hspec := value?_spec byte.toNat byte.toNat_lt
    rw [UInt8.ofNat_toNat, hvalue] at hspec
    rw [valueOf, hvalue]
    exact hspec value rfl
  refine ⟨?_, List.forall_mem_map.mpr fun byte hmem => (hbyte byte hmem).1⟩
  rw [List.map_map]
  exact (List.map_congr_left fun byte hmem => (hbyte byte hmem).2).trans (List.map_id _)

theorem map_valueOf_symbolByte {values : List Nat} (h : ∀ value ∈ values, value < 64) :
    (values.map symbolByte).map valueOf = values ∧ ∀ byte ∈ values.map symbolByte, isSymbol byte = true := by
  have hvalue : ∀ value ∈ values, value? (symbolByte value) = some value :=
    fun value hmem => (symbol_spec value (h value hmem)).2
  constructor
  · rw [List.map_map]
    refine (List.map_congr_left fun value hmem => ?_).trans (List.map_id _)
    rw [Function.comp_apply, valueOf, hvalue value hmem]
    rfl
  · refine List.forall_mem_map.mpr fun value hmem => ?_
    rw [isSymbol, hvalue value hmem]
    rfl

theorem toUtf8_encode (bytes : List UInt8) : Text.toUtf8 (encode bytes) = (sextets bytes).map symbolByte := by
  have hascii : ∀ c ∈ (sextets bytes).map symbol, c.toNat < 128 :=
    List.forall_mem_map.mpr fun value hmem => (symbol_spec value (lt_of_mem_sextets hmem)).1
  rw [encode, Text.toUtf8_ofList hascii, List.map_map]
  rfl

theorem decodedLength_ok_iff_encode (text : String) (length : Nat) :
    decodedLength (Text.toUtf8 text) = .ok length ↔ ∃ bytes, text = encode bytes ∧ bytes.length = length := by
  rw [decodedLength_ok_iff]
  constructor
  · rintro ⟨hsymbols, hwhole, rfl⟩
    obtain ⟨htext, hlt⟩ := map_symbolByte_valueOf hsymbols
    have hsextets := sextets_ofSextets hlt hwhole
    refine ⟨ofSextets ((Text.toUtf8 text).map valueOf), Text.toUtf8_injective ?_, ?_⟩
    · rw [toUtf8_encode, hsextets, htext]
    · rw [← length_sextets, hsextets, List.length_map]
  · rintro ⟨bytes, rfl, rfl⟩
    have hlt : ∀ value ∈ sextets bytes, value < 64 := fun value hmem => lt_of_mem_sextets hmem
    obtain ⟨hvalues, hsymbols⟩ := map_valueOf_symbolByte hlt
    rw [toUtf8_encode, hvalues, List.length_map, length_sextets]
    exact ⟨hsymbols, whole_sextets bytes, rfl⟩

/-- **A text is taken for what it encodes.** -/
theorem check_iff_encode (text : String) :
    (check text = .ok () ↔ ∃ bytes : List UInt8, bytes.length = 32 ∧ text = encode bytes) ∧
    (∀ n, check text = .error (.length n) ↔ n ≠ 32 ∧ ∃ bytes : List UInt8, bytes.length = n ∧ text = encode bytes) ∧
    ((∃ error, check text = .error (.encoding error)) ↔ ∀ bytes : List UInt8, text ≠ encode bytes) := by
  have hlength := decodedLength_ok_iff_encode text
  cases hd : decodedLength (Text.toUtf8 text) with
  | error error =>
    have hcheck : check text = .error (.encoding error) := by rw [check, ← Text.toUtf8, hd]
    have hnot : ∀ bytes, text ≠ encode bytes := by
      rintro bytes htext
      cases hd.symm.trans ((hlength bytes.length).mpr ⟨bytes, htext, rfl⟩)
    simp [hcheck, hnot]
  | ok length =>
    have hcheck : check text = if length = 32 then .ok () else .error (.length length) := by
      rw [check, ← Text.toUtf8, hd]
      rfl
    obtain ⟨bytes, htext, hbytes⟩ := (hlength length).mp hd
    have hunique : ∀ n, (∃ bytes : List UInt8, bytes.length = n ∧ text = encode bytes) ↔ n = length := by
      intro n
      constructor
      · rintro ⟨other, hother, htext'⟩
        exact (Except.ok.inj (hd.symm.trans ((hlength n).mpr ⟨other, htext', hother⟩))).symm
      · rintro rfl
        exact ⟨bytes, hbytes, htext⟩
    have hsome : ¬∀ bytes : List UInt8, text ≠ encode bytes := fun h => h bytes htext
    simp only [hcheck, hunique, hsome]
    split
    · next h32 =>
      simp only [reduceCtorEq, exists_false, false_iff, not_and, true_iff, and_true]
      exact ⟨h32.symm, fun n hn h => hn (h.trans h32)⟩
    · next h32 =>
      simp only [reduceCtorEq, Except.error.injEq, Error.length.injEq, exists_false, false_iff, and_true]
      exact ⟨fun h => h32 h.symm, fun n => ⟨fun h => ⟨h ▸ h32, h.symm⟩, fun h => h.2.symm⟩⟩

end Digest

end NameServer
