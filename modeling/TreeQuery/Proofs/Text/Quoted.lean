import TreeQuery.Text.Quoted

namespace TreeQuery.Quoted

/-- A text that may stand between two `delimiter`s. -/
def Closed (delimiter : Char) (body : List Char) : Prop :=
  ∀ rest, body? delimiter (body ++ delimiter :: rest) = some (body, rest)

section Body

variable {d : Char}

theorem body?_escaped (c : Char) (cs : List Char) :
    body? d ('\\' :: c :: cs) = (body? d cs).map fun (text, rest) => ('\\' :: c :: text, rest) := by
  rw [body?]

theorem body?_delimiter (hd : d ≠ '\\') (cs : List Char) : body? d (d :: cs) = some ([], cs) := by
  rw [body?, if_pos rfl]
  rintro _ _ rfl _
  exact hd rfl

theorem body?_plain {c : Char} (hc : c ≠ '\\') (hd : c ≠ d) (cs : List Char) :
    body? d (c :: cs) = (body? d cs).map fun (text, rest) => (c :: text, rest) := by
  rw [body?, if_neg hd]
  rintro _ _ rfl _
  exact hc rfl

theorem closed_nil (hd : d ≠ '\\') : Closed d [] :=
  body?_delimiter hd

theorem Closed.escaped {body : List Char} (h : Closed d body) (c : Char) :
    Closed d ('\\' :: c :: body) := by
  intro rest
  rw [List.cons_append, List.cons_append, body?_escaped, h rest]
  rfl

theorem Closed.plain {body : List Char} (h : Closed d body) {c : Char} (hc : c ≠ '\\')
    (hd : c ≠ d) : Closed d (c :: body) := by
  intro rest
  rw [List.cons_append, body?_plain hc hd, h rest]
  rfl

theorem closed_of_body? (hd : d ≠ '\\') {cs body rest : List Char}
    (h : body? d cs = some (body, rest)) : Closed d body := by
  fun_induction body? d cs generalizing body rest with
  | case1 => cases h
  | case2 c cs ih =>
    obtain ⟨⟨b, r⟩, hb, he⟩ := Option.map_eq_some_iff.mp h
    cases he
    exact (ih hb).escaped c
  | case3 cs hno =>
    cases h
    exact closed_nil hd
  | case4 c cs hno hne ih =>
    obtain ⟨⟨b, r⟩, hb, he⟩ := Option.map_eq_some_iff.mp h
    cases he
    have hc : c ≠ '\\' := by
      rintro rfl
      cases cs with
      | nil => cases hb
      | cons c' cs' => exact hno c' cs' rfl rfl
    exact (ih hb).plain hc hne

/-- Nothing is lost but the delimiter. -/
theorem eq_append_of_body? {cs body rest : List Char} (h : body? d cs = some (body, rest)) :
    cs = body ++ d :: rest := by
  fun_induction body? d cs generalizing body rest with
  | case1 => cases h
  | case2 c cs ih =>
    obtain ⟨⟨b, r⟩, hb, he⟩ := Option.map_eq_some_iff.mp h
    cases he
    rw [ih hb]
    rfl
  | case3 cs hno =>
    cases h
    rfl
  | case4 c cs hno hne ih =>
    obtain ⟨⟨b, r⟩, hb, he⟩ := Option.map_eq_some_iff.mp h
    cases he
    rw [ih hb]
    rfl

end Body

theorem length_unescapeSlashes_cons_le (c : Char) (cs : List Char) :
    (unescapeSlashes (c :: cs)).length ≤ (unescapeSlashes cs).length + 1 := by
  by_cases h : c = '\\' ∧ ∃ ds, cs = '/' :: ds
  · obtain ⟨rfl, ds, rfl⟩ := h
    simp [unescapeSlashes]
  · rw [unescapeSlashes]
    · simp
    · rintro ds rfl rfl
      exact h ⟨rfl, ds, rfl⟩

theorem length_unescapeSlashes_le (cs : List Char) :
    (unescapeSlashes cs).length ≤ cs.length := by
  induction cs with
  | nil => exact Nat.le_refl _
  | cons c cs ih =>
    exact Nat.le_trans (length_unescapeSlashes_cons_le c cs) (Nat.succ_le_succ ih)

/-- Between slashes every slash has a backslash to lose. -/
theorem length_unescapeSlashes_lt {cs body rest : List Char}
    (h : body? '/' cs = some (body, rest)) (hm : '/' ∈ body) :
    (unescapeSlashes body).length < body.length := by
  fun_induction body? '/' cs generalizing body rest with
  | case1 => cases h
  | case2 c cs ih =>
    obtain ⟨⟨b, r⟩, hb, he⟩ := Option.map_eq_some_iff.mp h
    cases he
    by_cases hc : c = '/'
    · have hle := length_unescapeSlashes_le b
      rw [hc, unescapeSlashes, List.length_cons, List.length_cons, List.length_cons]
      omega
    · have hlt := ih hb (by simpa [Ne.symm hc] using hm)
      have hle := length_unescapeSlashes_cons_le '\\' (c :: b)
      have hle' := length_unescapeSlashes_cons_le c b
      rw [List.length_cons, List.length_cons]
      omega
  | case3 cs hno =>
    cases h
    cases hm
  | case4 c cs hno hne ih =>
    obtain ⟨⟨b, r⟩, hb, he⟩ := Option.map_eq_some_iff.mp h
    cases he
    have hlt := ih hb ((List.mem_cons.mp hm).resolve_left (Ne.symm hne))
    have hle := length_unescapeSlashes_cons_le c b
    rw [List.length_cons]
    omega

theorem mem_unescapeSlashes {c : Char} {cs : List Char} (hc : c ≠ '\\') :
    c ∈ unescapeSlashes cs ↔ c ∈ cs := by
  fun_induction unescapeSlashes cs with
  | case1 cs ih => simp [ih, hc]
  | case2 d cs _ ih => simp [ih]
  | case3 => rfl

/-- Without slashes there is nothing to unescape. -/
theorem unescapeSlashes_of_not_mem {cs : List Char} (h : '/' ∉ cs) : unescapeSlashes cs = cs := by
  fun_induction unescapeSlashes cs with
  | case1 cs ih => simp at h
  | case2 d cs _ ih => rw [ih fun hm => h (List.mem_cons_of_mem _ hm)]
  | case3 => rfl

/-- Hexadecimal digits are neither quotes nor backslashes. -/
theorem mem_toDigits_hex {d : Char} {n : Nat} (h : d ∈ Nat.toDigits 16 n) : d ≠ '"' ∧ d ≠ '\\' := by
  have hdigit : ∀ k < 16, k.digitChar ≠ '"' ∧ k.digitChar ≠ '\\' := by decide
  induction n using Nat.strongRecOn with
  | _ n ih =>
    by_cases hn : n < 16
    · rw [Nat.toDigits_of_lt_base hn, List.mem_singleton] at h
      exact h ▸ hdigit n hn
    · rw [Nat.toDigits_of_base_le (by decide) (by omega), List.mem_append,
        List.mem_singleton] at h
      rcases h with h | h
      · exact ih (n / 16) (by omega) h
      · exact h ▸ hdigit (n % 16) (by omega)

theorem closed_append {cs body : List Char} (h : Closed '"' body)
    (hcs : ∀ c ∈ cs, c ≠ '"' ∧ c ≠ '\\') : Closed '"' (cs ++ body) := by
  induction cs with
  | nil => exact h
  | cons c cs ih =>
    obtain ⟨hc, hcs⟩ := List.forall_mem_cons.mp hcs
    exact (ih hcs).plain hc.2 hc.1

theorem unescape_plain {c : Char} (hc : c ≠ '\\') (cs : List Char) :
    unescape (c :: cs) = c :: unescape cs := by
  rw [unescape]
  all_goals
    rintro _ rfl
    exact absurd rfl hc

theorem unescape_append {cs : List Char} (hcs : ∀ c ∈ cs, c ≠ '"' ∧ c ≠ '\\')
    (rest : List Char) : unescape (cs ++ rest) = cs ++ unescape rest := by
  induction cs with
  | nil => rfl
  | cons c cs ih =>
    obtain ⟨hc, hcs⟩ := List.forall_mem_cons.mp hcs
    rw [List.cons_append, unescape_plain hc.2, ih hcs, List.cons_append]

/-- Before anything but a quote or another backslash a backslash stands for itself. -/
theorem unescape_code {x : Char} (hx : x ≠ '"' ∧ x ≠ '\\') (cs : List Char) :
    unescape ('\\' :: x :: cs) = '\\' :: unescape (x :: cs) := by
  rw [unescape]
  · rintro _ _ he
    cases he
    exact hx.1 rfl
  · rintro _ _ he
    cases he
    exact hx.2 rfl

variable [Unicode.Tables]

/-- Nothing but a backslash is ever put before the character to write it in quotes. -/
def IsPlain (c : Char) : Prop :=
  c = '"' ∨ c = '\\' ∨ escape '"' c = [c]

instance (c : Char) : Decidable (IsPlain c) :=
  inferInstanceAs (Decidable (_ ∨ _ ∨ _))

/-- A quote or a backslash is written with a backslash before it; another character is written as it
is, or as a code that begins with a backslash. -/
theorem escape_cases (c : Char) :
    (c = '"' ∨ c = '\\') ∧ escape '"' c = ['\\', c] ∨
      (c ≠ '"' ∧ c ≠ '\\') ∧ (escape '"' c = [c] ∨
        ∃ x xs, escape '"' c = '\\' :: x :: xs ∧ ∀ y ∈ x :: xs, y ≠ '"' ∧ y ≠ '\\') := by
  by_cases hq : c = '"' ∨ c = '\\'
  · exact .inl ⟨hq, by simp [escape, hq]⟩
  · refine .inr ⟨not_or.mp hq, ?_⟩
    have hletter {x : Char} (hx : x ≠ '"' ∧ x ≠ '\\') :
        ∃ y ys, ['\\', x] = '\\' :: y :: ys ∧ ∀ z ∈ y :: ys, z ≠ '"' ∧ z ≠ '\\' :=
      ⟨x, [], rfl, List.forall_mem_singleton.mpr hx⟩
    rw [escape, if_neg (by simpa using hq)]
    split
    · exact .inr (hletter (by decide))
    split
    · exact .inr (hletter (by decide))
    split
    · exact .inr (hletter (by decide))
    split
    · exact .inr (hletter (by decide))
    split
    · refine .inr ⟨'u', '{' :: (Nat.toDigits 16 c.toNat ++ ['}']), rfl, ?_⟩
      refine List.forall_mem_cons.mpr ⟨by decide, List.forall_mem_cons.mpr ⟨by decide, ?_⟩⟩
      exact List.forall_mem_append.mpr ⟨fun d hd => mem_toDigits_hex hd, by simp⟩
    · exact .inl rfl

/-- Whatever the text, its spelling does not close the quotes. -/
theorem closed_escape (cs : List Char) : Closed '"' (cs.flatMap (escape '"')) := by
  induction cs with
  | nil => exact closed_nil (by decide)
  | cons c cs ih =>
    rw [List.flatMap_cons]
    rcases escape_cases c with ⟨_, he⟩ | ⟨hc, he | ⟨x, xs, he, hcode⟩⟩
    · rw [he]
      exact ih.escaped c
    · rw [he]
      exact ih.plain hc.2 hc.1
    · rw [he]
      obtain ⟨_, hxs⟩ := List.forall_mem_cons.mp hcode
      exact (closed_append ih hxs).escaped x

/-- What the spelling of a character is read back as: a code is not undone. -/
def reread (c : Char) : List Char :=
  if c = '"' || c = '\\' then [c] else escape '"' c

/-- Reading undoes the backslashes before quotes and backslashes, and nothing else. -/
theorem unescape_escape (cs : List Char) :
    unescape (cs.flatMap (escape '"')) = cs.flatMap reread := by
  induction cs with
  | nil => rfl
  | cons c cs ih =>
    rw [List.flatMap_cons, List.flatMap_cons, ← ih, reread]
    rcases escape_cases c with ⟨hc, he⟩ | ⟨hc, he | ⟨x, xs, he, hcode⟩⟩
    · rw [he, if_pos (by simpa using hc)]
      rcases hc with rfl | rfl <;> rfl
    · rw [he, ite_self]
      exact unescape_plain hc.2 _
    · rw [if_neg (by simpa using hc), he, List.cons_append, List.cons_append,
        unescape_code (hcode x List.mem_cons_self), ← List.cons_append, unescape_append hcode]
      rfl

theorem reread_of_isPlain {c : Char} (h : IsPlain c) : reread c = [c] := by
  rw [reread]
  split
  · rfl
  · rename_i hc
    obtain ⟨hq, hb⟩ := not_or.mp (by simpa using hc)
    exact (h.resolve_left hq).resolve_left hb

theorem isPlain_of_length_reread {c : Char} (h : (reread c).length ≤ 1) : IsPlain c := by
  rcases escape_cases c with ⟨hc, _⟩ | ⟨_, he | ⟨x, xs, he, _⟩⟩
  · exact hc.imp_right .inl
  · exact .inr (.inr he)
  · rw [reread] at h
    split at h
    · rename_i hc
      exact (show c = '"' ∨ c = '\\' by simpa using hc).imp_right .inl
    · rw [he] at h
      simp at h

theorem length_reread_pos (c : Char) : 0 < (reread c).length := by
  rcases escape_cases c with ⟨hc, _⟩ | ⟨_, he | ⟨x, xs, he, _⟩⟩
  · simp [reread, hc]
  · simp [reread, he]
  · rw [reread]
    split <;> simp [he]

theorem length_le_flatMap_reread (cs : List Char) : cs.length ≤ (cs.flatMap reread).length := by
  induction cs with
  | nil => exact Nat.le_refl _
  | cons c cs ih =>
    have hpos := length_reread_pos c
    rw [List.flatMap_cons, List.length_append, List.length_cons]
    omega

/-- A text is read back exactly if no character of it is spelled as a code: each code makes it
longer. -/
theorem flatMap_reread_eq_self_iff {cs : List Char} :
    cs.flatMap reread = cs ↔ ∀ c ∈ cs, IsPlain c := by
  induction cs with
  | nil => simp
  | cons c cs ih =>
    rw [List.forall_mem_cons, ← ih, List.flatMap_cons]
    constructor
    · intro he
      have hlength := congrArg List.length he
      have hle := length_le_flatMap_reread cs
      rw [List.length_append, List.length_cons] at hlength
      have hc : IsPlain c := isPlain_of_length_reread (by omega)
      rw [reread_of_isPlain hc] at he
      exact ⟨hc, List.tail_eq_of_cons_eq he⟩
    · rintro ⟨hc, he⟩
      rw [reread_of_isPlain hc, he]
      rfl

end TreeQuery.Quoted
