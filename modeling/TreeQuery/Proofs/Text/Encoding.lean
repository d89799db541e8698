import Mathlib.Data.List.Basic
import TreeQuery.Text.Line

namespace TreeQuery.Line

/-- The bytes of a text. -/
def encode (cs : List Char) : List UInt8 :=
  cs.flatMap String.utf8EncodeChar

theorem encode_toList (text : String) : encode text.toList = text.toUTF8.data.toList := by
  have h : text.toList.utf8Encode = text.toUTF8 := String.utf8Encode_toList
  rw [← h, List.utf8Encode, List.data_toByteArray]
  rfl

theorem decode_encode (cs : List Char) : decode (encode cs) = some cs := by
  have h : (⟨(encode cs).toArray⟩ : ByteArray) = cs.utf8Encode :=
    ByteArray.ext List.data_toByteArray.symm
  rw [decode, h, String.fromUTF8?, dif_pos ByteArray.isValidUTF8_utf8Encode]
  exact congrArg some String.toList_ofList

/-- A byte is the character itself or no ASCII character. -/
theorem toNat_of_mem_utf8EncodeChar {c : Char} {b : UInt8} (hb : b ∈ String.utf8EncodeChar c) :
    b.toNat = c.toNat ∨ 128 ≤ b.toNat := by
  change b.toNat = c.val.toNat ∨ 128 ≤ b.toNat
  simp only [String.utf8EncodeChar] at hb
  split at hb
  · obtain rfl := List.mem_singleton.mp hb
    rw [UInt8.toNat_ofNat']
    omega
  · have hhigh : ∀ n, 128 ≤ n → n < 256 → 128 ≤ (UInt8.ofNat n).toNat := by
      intro n hn hlt
      rw [UInt8.toNat_ofNat', Nat.mod_eq_of_lt hlt]
      exact hn
    right
    split at hb
    · simp only [List.mem_cons, List.not_mem_nil, or_false] at hb
      rcases hb with rfl | rfl <;> exact hhigh _ (by omega) (by omega)
    · split at hb
      · simp only [List.mem_cons, List.not_mem_nil, or_false] at hb
        rcases hb with rfl | rfl | rfl <;> exact hhigh _ (by omega) (by omega)
      · simp only [List.mem_cons, List.not_mem_nil, or_false] at hb
        rcases hb with rfl | rfl | rfl | rfl <;> exact hhigh _ (by omega) (by omega)

theorem ne_of_mem_utf8EncodeChar {c d : Char} (hne : c ≠ d) (hd : d.toNat < 128) {b : UInt8}
    (hb : b ∈ String.utf8EncodeChar c) : b.toNat ≠ d.toNat := by
  intro he
  rcases toNat_of_mem_utf8EncodeChar hb with h | h
  · exact hne (Char.toNat_inj.mp (h.symm.trans he))
  · omega

theorem foldr_extend_cons {α : Type} (cs line : List α) (lines : List (List α)) :
    cs.foldr extend (line :: lines) = (cs ++ line) :: lines := by
  induction cs with
  | nil => rfl
  | cons c cs ih => rw [List.foldr_cons, ih, extend, List.cons_append]

theorem foldr_extend_nil {α : Type} {cs : List α} (h : cs ≠ []) : cs.foldr extend [] = [cs] := by
  induction cs with
  | nil => exact absurd rfl h
  | cons c cs ih =>
    cases cs with
    | nil => rfl
    | cons d cs => rw [List.foldr_cons, ih (List.cons_ne_nil d cs), extend]

/-- What is no part of a line end stays together. -/
theorem cut_append {α : Type} [DecidableEq α] {lf cr : α} {cs : List α}
    (h : ∀ c ∈ cs, c ≠ lf ∧ c ≠ cr) (rest : List α) :
    cut lf cr (cs ++ rest) = cs.foldr extend (cut lf cr rest) := by
  induction cs with
  | nil => rfl
  | cons c cs ih =>
    obtain ⟨⟨hlf, hcr⟩, hcs⟩ := List.forall_mem_cons.mp h
    rw [List.cons_append, cut, if_neg hlf, if_neg fun h => hcr h.1, ih hcs, List.foldr_cons]

theorem encode_cons (c : Char) (cs : List Char) :
    encode (c :: cs) = String.utf8EncodeChar c ++ encode cs :=
  List.flatMap_cons

theorem map_encode_extend (c : Char) (lines : List (List Char)) :
    (extend c lines).map encode = (String.utf8EncodeChar c).foldr extend (lines.map encode) := by
  cases lines with
  | nil =>
    rw [List.map_nil, foldr_extend_nil String.utf8EncodeChar_ne_nil, extend, List.map_singleton,
      encode_cons]
    exact congrArg (fun bytes => [bytes]) (List.append_nil _)
  | cons line lines =>
    rw [List.map_cons, foldr_extend_cons, extend, List.map_cons, encode_cons]

theorem head_encode (cs : List Char) : (encode cs).head? = some 10 ↔ cs.head? = some '\n' := by
  cases cs with
  | nil => exact iff_of_false (by simp [encode]) (by simp)
  | cons c cs =>
    rw [encode_cons]
    by_cases hc : c = '\n'
    · subst hc
      exact iff_of_true rfl rfl
    · obtain ⟨b, bytes, hb⟩ := List.exists_cons_of_ne_nil (String.utf8EncodeChar_ne_nil (c := c))
      have hne := ne_of_mem_utf8EncodeChar (b := b) hc (by decide) (hb ▸ List.mem_cons_self)
      rw [hb, List.cons_append, List.head?_cons, List.head?_cons, Option.some_inj,
        Option.some_inj]
      exact iff_of_false (fun h => hne (congrArg UInt8.toNat h)) hc

theorem cut_encode (cs : List Char) :
    cut 10 13 (encode cs) = (cut '\n' '\r' cs).map encode := by
  induction cs with
  | nil => rfl
  | cons c cs ih =>
    rw [encode_cons]
    by_cases hlf : c = '\n'
    · subst hlf
      change [] :: cut 10 13 (encode cs) = [] :: (cut '\n' '\r' cs).map encode
      rw [ih]
    · rw [cut, if_neg hlf]
      by_cases hcr : c = '\r'
      · subst hcr
        change cut 10 13 (13 :: encode cs) = _
        rw [cut, if_neg (by decide)]
        by_cases hhead : cs.head? = some '\n'
        · rw [if_pos ⟨rfl, (head_encode cs).mpr hhead⟩, if_pos ⟨rfl, hhead⟩, ih]
        · rw [if_neg fun h => hhead ((head_encode cs).mp h.2), if_neg fun h => hhead h.2,
            map_encode_extend, ← ih]
          rfl
      · rw [if_neg fun h => hcr h.1, map_encode_extend, ← ih]
        apply cut_append
        intro b hb
        exact ⟨fun h => ne_of_mem_utf8EncodeChar hlf (by decide) hb (congrArg UInt8.toNat h),
          fun h => ne_of_mem_utf8EncodeChar hcr (by decide) hb (congrArg UInt8.toNat h)⟩

/-- The lines of a text are read from its bytes. -/
theorem ofBytes_encode (cs : List Char) : ofBytes (encode cs) = (ofText cs).map some := by
  have h : decode ∘ encode = some := funext decode_encode
  rw [ofBytes, cut_encode, List.map_map, h]
  rfl

/-- The bytes are valid UTF-8. -/
def IsText (bytes : List UInt8) : Prop :=
  ByteArray.IsValidUTF8 ⟨bytes.toArray⟩

instance (bytes : List UInt8) : Decidable (IsText bytes) :=
  inferInstanceAs (Decidable (ByteArray.IsValidUTF8 _))

theorem isText_iff {bytes : List UInt8} : IsText bytes ↔ ∃ cs, bytes = encode cs := by
  have hbytes (cs : List Char) : cs.utf8Encode = ⟨(encode cs).toArray⟩ :=
    ByteArray.ext List.data_toByteArray
  constructor
  · intro h
    obtain ⟨cs, he⟩ := h
    rw [hbytes] at he
    refine ⟨cs, ?_⟩
    simpa using congrArg (fun b => b.data.toList) he
  · intro h
    obtain ⟨cs, he⟩ := h
    refine ⟨cs, ?_⟩
    rw [he, hbytes]

theorem exists_decode {bytes : List UInt8} (h : IsText bytes) : ∃ cs, decode bytes = some cs := by
  obtain ⟨cs, he⟩ := isText_iff.mp h
  exact ⟨cs, he ▸ decode_encode cs⟩

theorem decode_of_not_isText {bytes : List UInt8} (h : ¬IsText bytes) : decode bytes = none := by
  have hno : ¬ByteArray.IsValidUTF8 ⟨bytes.toArray⟩ := h
  rw [decode, String.fromUTF8?, dif_neg hno]
  rfl

/-- A carriage return at the end does not make bytes valid, nor invalid. -/
theorem isText_cr {bytes : List UInt8} : IsText (bytes ++ [13]) ↔ IsText bytes := by
  simp only [isText_iff]
  constructor
  · intro ⟨cs, he⟩
    rcases List.eq_nil_or_concat' cs with hnil | ⟨start, c, hcs⟩
    · subst cs
      simp [encode] at he
    · subst cs
      have hsplit : encode (start ++ [c]) = encode start ++ String.utf8EncodeChar c := by
        simp [encode]
      rw [hsplit] at he
      have hlast : (13 : UInt8) ∈ String.utf8EncodeChar c := by
        have hmem := congrArg List.getLast? he
        rw [List.getLast?_concat, List.getLast?_append_of_ne_nil _ String.utf8EncodeChar_ne_nil]
          at hmem
        exact List.mem_of_getLast? hmem.symm
      have hc : c = '\r' := by
        by_contra hne
        exact ne_of_mem_utf8EncodeChar hne (by decide) hlast rfl
      subst c
      exact ⟨start, List.append_cancel_right he⟩
  · intro ⟨cs, he⟩
    refine ⟨cs ++ ['\r'], ?_⟩
    rw [he, encode, encode, List.flatMap_append]
    rfl

section Cut

variable {α : Type} [DecidableEq α] {lf : α} {line : List α}

/-- A line is cut off in the same way whatever follows it. -/
theorem exists_cut (cr : α) (h : lf ∉ line) : ∃ body, (line = body ∨ line = body ++ [cr]) ∧
    ∀ rest, cut lf cr (line ++ lf :: rest) = body :: cut lf cr rest := by
  induction line with
  | nil =>
    refine ⟨[], .inl rfl, ?_⟩
    intro rest
    rw [List.nil_append, cut, if_pos rfl]
  | cons c line ih =>
    obtain ⟨hc, hline⟩ := not_or.mp (mt List.mem_cons.mpr h)
    obtain ⟨body, hbody, hcut⟩ := ih hline
    cases line with
    | nil =>
      have hnil : body = [] := by
        rcases hbody with hb | hb
        · exact hb.symm
        · simp at hb
      subst body
      by_cases hcr : c = cr
      · refine ⟨[], .inr (by simp [hcr]), ?_⟩
        intro rest
        rw [← hcut rest, List.singleton_append, List.nil_append, cut, if_neg (Ne.symm hc),
          if_pos ⟨hcr, rfl⟩]
      · refine ⟨[c], .inl rfl, ?_⟩
        intro rest
        have hcut' := hcut rest
        rw [List.nil_append] at hcut'
        rw [List.singleton_append, cut, if_neg (Ne.symm hc), if_neg fun he => hcr he.1, hcut',
          extend]
    | cons d line =>
      refine ⟨c :: body, ?_, ?_⟩
      · rcases hbody with hb | hb
        · exact .inl (congrArg (c :: ·) hb)
        · exact .inr (congrArg (c :: ·) hb)
      · intro rest
        have hhead : (d :: line ++ lf :: rest).head? ≠ some lf := by
          intro he
          apply hline
          cases he
          exact List.mem_cons_self
        rw [List.cons_append, cut, if_neg (Ne.symm hc), if_neg fun he => hhead he.2, hcut rest,
          extend]

/-- The end of the text ends a line too. -/
theorem cut_lastLine {cr : α} (h : lf ∉ line) (hne : line ≠ []) : cut lf cr line = [line] := by
  induction line with
  | nil => exact absurd rfl hne
  | cons c line ih =>
    obtain ⟨hc, hline⟩ := not_or.mp (mt List.mem_cons.mpr h)
    have hhead : line.head? ≠ some lf := fun he => hline (List.mem_of_mem_head? he)
    rw [cut, if_neg (Ne.symm hc), if_neg fun he => hhead he.2]
    cases line with
    | nil => rfl
    | cons d line => rw [ih hline (List.cons_ne_nil d line), extend]

end Cut

/-- The bytes of whole lines. -/
def joined (lines : List (List UInt8)) : List UInt8 :=
  lines.flatMap (· ++ [10])

/-- Lines that are texts are read in the same way whatever follows them. -/
theorem exists_ofBytes_joined {lines : List (List UInt8)}
    (h : ∀ line ∈ lines, 10 ∉ line ∧ IsText line) : ∃ texts : List (List Char), ∀ rest,
      ofBytes (joined lines ++ rest) = texts.map some ++ ofBytes rest := by
  induction lines with
  | nil => exact ⟨[], fun rest => rfl⟩
  | cons line lines ih =>
    obtain ⟨⟨hlf, htext⟩, hlines⟩ := List.forall_mem_cons.mp h
    obtain ⟨texts, hrest⟩ := ih hlines
    obtain ⟨body, hbody, hcut⟩ := exists_cut 13 hlf
    have hbodyText : IsText body := by
      rcases hbody with he | he
      · rwa [← he]
      · rwa [he, isText_cr] at htext
    obtain ⟨cs, hcs⟩ := exists_decode hbodyText
    refine ⟨cs :: texts, ?_⟩
    intro rest
    have hfirst : joined (line :: lines) ++ rest = line ++ 10 :: (joined lines ++ rest) := by
      simp [joined]
    rw [hfirst, ofBytes, hcut, List.map_cons, hcs]
    exact congrArg (some cs :: ·) (hrest rest)

/-- A line that is no text is seen to be none, at the end of the bytes as before a line feed. -/
theorem exists_ofBytes_bad {bad tail : List UInt8} (hlf : 10 ∉ bad) (hbad : ¬IsText bad)
    (htail : ∀ b ∈ tail.head?, b = 10) : ∃ more, ofBytes (bad ++ tail) = none :: more := by
  cases tail with
  | nil =>
    have hne : bad ≠ [] := by
      intro he
      apply hbad
      rw [he, isText_iff]
      exact ⟨[], rfl⟩
    refine ⟨[], ?_⟩
    rw [List.append_nil, ofBytes, cut_lastLine hlf hne, List.map_singleton,
      decode_of_not_isText hbad]
  | cons b tail =>
    have hb : b = 10 := htail b rfl
    subst b
    obtain ⟨body, hbody, hcut⟩ := exists_cut 13 hlf
    have hno : ¬IsText body := by
      rcases hbody with he | he
      · rwa [← he]
      · rwa [he, isText_cr] at hbad
    refine ⟨ofBytes tail, ?_⟩
    rw [ofBytes, hcut, List.map_cons, decode_of_not_isText hno]
    rfl

end TreeQuery.Line
