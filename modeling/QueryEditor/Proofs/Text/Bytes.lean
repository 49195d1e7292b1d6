import QueryEditor.Text.Bytes
import QueryEditor.Proofs.Text.Runs

namespace QueryEditor.Text

theorem bytes_append (front rest : List Char) : bytes (front ++ rest) = bytes front ++ bytes rest :=
  List.flatMap_append

theorem ofBytes?_bytes (text : List Char) : ofBytes? (bytes text) = some text := by
  have valid : (bytes text).toByteArray.IsValidUTF8 := ByteArray.isValidUTF8_utf8Encode
  have same : String.fromUTF8 (bytes text).toByteArray valid = String.ofList text := rfl
  rw [ofBytes?, String.fromUTF8?, dif_pos valid, same, Option.map_some, String.toList_ofList]

def IsAscii (p : Char → Bool) : Prop :=
  ∀ c, p c = true → c.toNat < 128

variable {p : Char → Bool} {c : Char} {text rest : List Char} {offset : Nat}

theorem IsAscii.outside (ascii : IsAscii p) (large : 128 ≤ c.toNat) : p c = false := by
  cases inside : p c with
  | false => rfl
  | true =>
    have small := ascii c inside
    omega

theorem ofUInt8_toNat (byte : UInt8) : (Char.ofUInt8 byte).toNat = byte.toNat := rfl

theorem utf8EncodeChar_small (small : c.toNat < 128) :
    String.utf8EncodeChar c = [UInt8.ofNat c.toNat] := by
  have low : c.val.toNat ≤ 127 := Nat.le_of_lt_succ small
  simp only [String.utf8EncodeChar, if_pos low]
  rfl

theorem utf8EncodeChar_large (large : 128 ≤ c.toNat) :
    ∃ byte others, String.utf8EncodeChar c = byte :: others ∧ 128 ≤ byte.toNat := by
  have low : ¬ c.val.toNat ≤ 127 := Nat.not_le.mpr large
  simp only [String.utf8EncodeChar, if_neg low]
  split
  · exact ⟨_, _, rfl, by rw [UInt8.toNat_ofNat']; omega⟩
  · split
    · exact ⟨_, _, rfl, by rw [UInt8.toNat_ofNat']; omega⟩
    · exact ⟨_, _, rfl, by rw [UInt8.toNat_ofNat']; omega⟩

theorem byteIn_small (small : c.toNat < 128) : byteIn p (UInt8.ofNat c.toNat) = p c := by
  have same : Char.ofUInt8 (UInt8.ofNat c.toNat) = c := by
    apply Char.toNat_inj.mp
    rw [ofUInt8_toNat, UInt8.toNat_ofNat']
    omega
  rw [byteIn, same]

theorem utf8EncodeChar_head (ascii : IsAscii p) (c : Char) :
    ∃ byte others, String.utf8EncodeChar c = byte :: others ∧ byteIn p byte = p c := by
  by_cases small : c.toNat < 128
  · exact ⟨_, [], utf8EncodeChar_small small, byteIn_small small⟩
  · have large := Nat.le_of_not_lt small
    obtain ⟨byte, others, encoded, above⟩ := utf8EncodeChar_large large
    have outside : byteIn p byte = false := ascii.outside above
    exact ⟨byte, others, encoded, outside.trans (ascii.outside large).symm⟩

theorem head?_bytes (ascii : IsAscii p) (text : List Char) :
    (bytes text).head?.any (byteIn p) = startsIn p text := by
  cases text with
  | nil => rfl
  | cons c rest =>
    obtain ⟨byte, others, encoded, same⟩ := utf8EncodeChar_head ascii c
    rw [bytes, List.flatMap_cons, encoded]
    exact same

theorem takeWhile_bytes (ascii : IsAscii p) (text : List Char) :
    ((bytes text).takeWhile (byteIn p)).length = (text.takeWhile p).length := by
  induction text with
  | nil => rfl
  | cons c rest ih =>
    rw [bytes, List.flatMap_cons]
    by_cases inside : p c = true
    · have small := ascii c inside
      rw [utf8EncodeChar_small small, List.singleton_append, List.takeWhile_cons,
        byteIn_small small, if_pos inside, List.takeWhile_cons, if_pos inside, List.length_cons,
        List.length_cons]
      exact congrArg (· + 1) ih
    · obtain ⟨byte, others, encoded, same⟩ := utf8EncodeChar_head ascii c
      rw [encoded, List.cons_append, List.takeWhile_cons, same, if_neg inside, List.takeWhile_cons,
        if_neg inside]
      rfl

theorem length_bytes (ascii : IsAscii p) {run : List Char} (inside : run.all p = true) :
    (bytes run).length = run.length := by
  induction run with
  | nil => rfl
  | cons c rest ih =>
    rw [List.all_cons, Bool.and_eq_true] at inside
    rw [bytes, List.flatMap_cons, utf8EncodeChar_small (ascii c inside.1), List.length_append,
      List.length_singleton, List.length_cons, Nat.add_comm]
    exact congrArg (· + 1) (ih inside.2)

/-- The rest of a text that starts at an offset into its bytes. -/
inductive RestAt : List Char → Nat → List Char → Prop
  | behind (front rest : List Char) : RestAt (front ++ rest) (bytes front).length rest

theorem RestAt.start (text : List Char) : RestAt text 0 text :=
  .behind [] text

theorem RestAt.advance (run : List Char) (here : RestAt text offset (run ++ rest)) :
    RestAt text (offset + (bytes run).length) rest := by
  obtain ⟨front⟩ := here
  rw [← List.append_assoc, ← List.length_append, ← bytes_append]
  exact .behind (front ++ run) rest

theorem RestAt.cut (here : RestAt text offset rest) :
    ∃ front, front ++ rest = text ∧ cut (bytes text) offset = .ok (bytes front, bytes rest) := by
  obtain ⟨front⟩ := here
  have within : (bytes front).length ≤ (bytes front ++ bytes rest).length := by
    rw [List.length_append]
    omega
  rw [bytes_append, Text.cut, if_pos within, List.take_left, List.drop_left]
  exact ⟨front, rfl, rfl⟩

theorem RestAt.offset_le (here : RestAt text offset rest) : offset ≤ (bytes text).length := by
  obtain ⟨front⟩ := here
  rw [bytes_append, List.length_append]
  omega

theorem RestAt.byteAt (ascii : IsAscii p) (here : RestAt text offset rest) :
    byteAt p (bytes text) offset = startsIn p rest := by
  obtain ⟨front⟩ := here
  rw [← head?_bytes ascii rest, Text.byteAt, bytes_append,
    List.getElem?_append_right (Nat.le_refl _), Nat.sub_self, List.head?_eq_getElem?]

end QueryEditor.Text
