import ScriptFront.Proofs.Spelling

/-!
# Maximal munch

A text is cut into tokens in exactly one way, if every token is written as its
kind says and takes all the characters that it can (`Token.Tokenizes`): scanning
finds that way (`tokenizes_tokens`), and there is no other
(`Tokenizes.eq_tokens`).

A blank ends every token. So the tokens of two texts with a blank between them
are those of the one and then those of the other (`tokenize_append_blank`), and a
text can be written from its tokens, with a blank between any two
(`tokenize_intercalate`).
-/

namespace ScriptFront

open Text

/-- Whether a token of this kind goes on with the character `c` if `c` follows
    directly. -/
def Kind.extendedBy : Kind → Char → Bool
  | ident, c | kwFn, c | kwLet, c | kwTrue, c | kwFalse, c | kwIf, c | kwElse, c | kwReturn, c =>
    Token.isWordChar c
  | int, c => c.isDigit
  | assign, c | bang, c => c == '='
  | _, _ => false

namespace Token

/-- The tokens that a text may consist of. -/
inductive Shaped : Token → Prop
  /-- A symbol, a reserved word, a name or a number. -/
  | spelled {t : Token} : t.Spelled → Shaped t
  /-- A character that is no blank and with which no other token starts. -/
  | illegal {c : Char} : isBlank c = false → (∀ t, Spelled t → t.literal.toList.head? ≠ some c) →
      Shaped ⟨.illegal, String.singleton c⟩

/-- `Tokenizes text ts`: the text consists of the literals of the tokens `ts`,
    in their order, with blanks before, between and after them. -/
inductive Tokenizes : List Char → List Token → Prop
  /-- At the end nothing but blanks is left. -/
  | done {bs : List Char} : bs.all isBlank = true → Tokenizes bs [eof]
  /-- A token stands after blanks, and what follows does not extend it. -/
  | token {bs rest : List Char} {t : Token} {ts : List Token} : bs.all isBlank = true → t.Shaped →
      (∀ c ∈ rest.head?, t.kind.extendedBy c = false) → Tokenizes rest ts →
      Tokenizes (bs ++ (t.literal.toList ++ rest)) (t :: ts)

variable {t : Token} {c : Char} {cs bs xs ys rest text : List Char} {w : String} {k : Kind}
  {ts us : List Token}

/-! ### What a token is extended by -/

/-- A word goes on with every character of words. -/
theorem extendedBy_of_isWord (h : k.isWord = true) (hk : k ≠ .int) (c : Char) :
    k.extendedBy c = isWordChar c := by
  cases k <;> first | rfl | exact absurd rfl hk | cases h

/-- A reserved word and a name are extended alike. -/
theorem extendedBy_ofWord (w : String) (c : Char) :
    (Kind.ofWord w).extendedBy c = isWordChar c := by
  rw [Kind.ofWord]
  rcases h : Kind.reserved.lookup w with _ | k
  · rfl
  · obtain ⟨us, vs, hus, -⟩ := List.lookup_eq_some_iff.1 h
    have hk : (w, k) ∈ Kind.reserved := by simp [hus]
    have hreserved : ∀ r ∈ Kind.reserved, r.2.isWord = true ∧ r.2 ≠ .int := by decide
    exact extendedBy_of_isWord (hreserved _ hk).1 (hreserved _ hk).2 c

/-- No token goes on with a blank. -/
theorem extendedBy_of_isBlank (h : isBlank c = true) : k.extendedBy c = false := by
  have hl : isLetter c = false := by
    rw [Bool.eq_false_iff]
    intro hl
    rw [isBlank_of_isLetter hl] at h
    cases h
  have hd : c.isDigit = false := by
    rw [Bool.eq_false_iff]
    intro hd
    rw [isBlank_of_isDigit hd] at h
    cases h
  have he : (c == '=') = false := by
    rw [beq_eq_false_iff_ne]
    rintro rfl
    cases h
  cases k <;> simp [Kind.extendedBy, isWordChar, hl, hd, he]

/-- The symbols that are the beginning of another one. -/
theorem of_extendedBy_symbol {d : Char} (h : Kind.ofSymbol? c = some k)
    (hd : k.extendedBy d = true) : (c = '=' ∨ c = '!') ∧ d = '=' := by
  unfold Kind.ofSymbol? at h
  split at h <;> cases h <;> simp_all [Kind.extendedBy]

/-! ### Scanning finds the tokens -/

theorem head?_dropWhile {f : Char → Bool} : ∀ c ∈ (rest.dropWhile f).head?, f c = false := by
  intro c hc
  have h := List.head?_dropWhile_not f rest
  rw [hc] at h
  simpa using h

/-- With a character that is no letter, digit or symbol, no token starts but the
    illegal one. -/
theorem shaped_illegal (hb : isBlank c = false) (hl : isLetter c = false) (hd : c.isDigit = false)
    (hs : Kind.ofSymbol? c = none) : Shaped ⟨.illegal, String.singleton c⟩ := by
  have hword : ∀ w, IsWord w → w.toList.head? ≠ some c := by
    rintro w ⟨d, ds, hw, hletter, -⟩ h
    rw [hw, List.head?_cons, Option.some.injEq] at h
    rw [h, hl] at hletter
    cases hletter
  refine .illegal hb fun t ht h => ?_
  cases ht with
  | name hw => exact hword _ hw h
  | number hw =>
    obtain ⟨d, ds, hw, hdigit, -⟩ := hw
    rw [hw, List.head?_cons, Option.some.injEq] at h
    rw [h, hd] at hdigit
    cases hdigit
  | fixed hw =>
    obtain ⟨d, rfl, hd⟩ | ⟨hw, -⟩ | ⟨-, rfl⟩ | ⟨-, rfl⟩ := of_spelling? hw
    · rw [String.toList_singleton, List.head?_cons, Option.some.injEq] at h
      rw [h, hs] at hd
      cases hd
    · exact hword _ hw h
    · obtain rfl : '=' = c := by simpa using h
      cases hs
    · obtain rfl : '!' = c := by simpa using h
      cases hs

/-- The token that is scanned is written as its kind says, and takes all the
    characters that it can. -/
theorem scanFrom_spec (hb : isBlank c = false) (rest : List Char) :
    (scanFrom c rest).1.Shaped ∧
    c :: rest = (scanFrom c rest).1.literal.toList ++ (scanFrom c rest).2 ∧
    ∀ d ∈ (scanFrom c rest).2.head?, (scanFrom c rest).1.kind.extendedBy d = false := by
  by_cases hl : isLetter c
  · rw [scanFrom_of_isLetter hl]
    have hw : IsWord (String.ofList (c :: rest.takeWhile isWordChar)) :=
      ⟨c, _, String.toList_ofList, hl, List.all_takeWhile⟩
    refine ⟨.spelled ?_, by simp [String.toList_ofList, List.takeWhile_append_dropWhile],
      fun d hd => by rw [extendedBy_ofWord]; exact head?_dropWhile d hd⟩
    rcases spelling?_ofWord (String.ofList (c :: rest.takeWhile isWordChar)) with hk | hk
    · simpa only [hk] using Spelled.name hw hk
    · exact .fixed hk
  by_cases hd : c.isDigit
  · rw [scanFrom_of_isDigit hd]
    exact ⟨.spelled (.number ⟨c, _, String.toList_ofList, hd, List.all_takeWhile⟩),
      by simp [String.toList_ofList, List.takeWhile_append_dropWhile], head?_dropWhile⟩
  unfold scanFrom
  rw [if_neg hl, if_neg hd]
  split
  · exact ⟨.spelled (.fixed rfl), by simp, fun _ _ => rfl⟩
  · exact ⟨.spelled (.fixed rfl), by simp, fun _ _ => rfl⟩
  next heq hne =>
    rcases hk : Kind.ofSymbol? c with _ | k
    · exact ⟨shaped_illegal hb (by simpa using hl) (by simpa using hd) hk, by simp, fun _ _ => rfl⟩
    · obtain ⟨-, -, -, hw, -, -⟩ := of_ofSymbol? hk
      refine ⟨.spelled (.fixed hw), by simp, fun d hd => ?_⟩
      -- The symbols of two characters were tried first.
      rw [Bool.eq_false_iff]
      intro hex
      obtain ⟨hc, rfl⟩ := of_extendedBy_symbol hk hex
      obtain ⟨rest, rfl⟩ := List.head?_eq_some_iff.1 hd
      exact hc.elim (heq rest · rfl) (hne rest · rfl)

/-- Scanning cuts a text into tokens as it has to be. -/
theorem tokenizes_tokens (text : List Char) : Tokenizes text (tokens text) := by
  induction text using tokens.induct with
  | case1 text h =>
    rw [tokens_of_dropWhile_nil h]
    have hall : text.takeWhile isBlank = text := by
      simpa [h] using List.takeWhile_append_dropWhile (p := isBlank) (l := text)
    exact .done (hall ▸ List.all_takeWhile)
  | case2 text c rest h _ ih =>
    have hc : c ∈ (text.dropWhile isBlank).head? := by
      rw [h]
      rfl
    obtain ⟨hs, hsplit, hext⟩ := scanFrom_spec (head?_dropWhile c hc) rest
    have ht : Tokenizes (text.takeWhile isBlank ++ _) _ := .token List.all_takeWhile hs hext ih
    rwa [← hsplit, ← h, List.takeWhile_append_dropWhile, ← tokens_of_dropWhile_cons h] at ht

/-! ### There is no other way -/

theorem Tokenizes.ne_nil (h : Tokenizes text ts) : ts ≠ [] := by
  cases h <;> simp

/-- A character that starts no other token is a token of its own. -/
theorem tokens_illegal (hb : isBlank c = false)
    (h : ∀ t : Token, t.Spelled → t.literal.toList.head? ≠ some c) :
    tokens ((String.singleton c).toList ++ rest) =
      ⟨.illegal, String.singleton c⟩ :: tokens rest := by
  have hl : isLetter c = false := by
    rw [Bool.eq_false_iff]
    intro hl
    -- A letter alone is a word, reserved or not.
    have hw : IsWord (String.ofList [c]) := ⟨c, [], String.toList_ofList, hl, rfl⟩
    rcases spelling?_ofWord (String.ofList [c]) with hk | hk
    · exact h _ (.name hw hk) (by simp)
    · exact h _ (.fixed hk) (by simp)
  have hd : c.isDigit = false := by
    rw [Bool.eq_false_iff]
    intro hd
    exact h _ (.number (w := String.ofList [c]) ⟨c, [], String.toList_ofList, hd, rfl⟩) (by simp)
  have hs : Kind.ofSymbol? c = none := by
    rcases hs : Kind.ofSymbol? c with _ | k
    · rfl
    · exact absurd (by simp) (h _ (.fixed (of_ofSymbol? hs).2.2.2.1))
  rw [String.toList_singleton, List.singleton_append, tokens_cons hb,
    scanFrom_illegal (by simp [hl]) (by simp [hd]) hs]

/-- A token that is written as its kind says is scanned as that token, if what
    follows does not extend it. -/
theorem tokens_shaped (h : t.Shaped) (hr : ∀ c ∈ rest.head?, t.kind.extendedBy c = false) :
    tokens (t.literal.toList ++ rest) = t :: tokens rest := by
  cases h with
  | illegal hb hs => exact tokens_illegal hb hs
  | spelled h =>
    by_cases hk : t.kind = .int
    · cases h with
      | number hw => exact tokens_number hw hr
      | name => cases hk
      | fixed hw => cases hk; cases hw
    · refine tokens_spelled h fun c hc => ⟨fun hword => ?_, fun hs => ?_⟩
      · rw [← extendedBy_of_isWord hword hk]
        exact hr c hc
      · have he := hr c hc
        rintro rfl
        rcases hs with hs | hs <;> rw [hs] at he <;> cases he

theorem Tokenizes.blanks (hbs : bs.all isBlank = true) (h : Tokenizes text ts) :
    Tokenizes (bs ++ text) ts := by
  cases h with
  | done hcs => exact .done (by simp_all)
  | token hcs ht hext h =>
    rw [← List.append_assoc]
    exact .token (by simp_all) ht hext h

theorem tokens_blanks (hbs : bs.all isBlank = true) : tokens (bs ++ text) = tokens text := by
  induction bs with
  | nil => rfl
  | cons b bs ih =>
    rw [List.all_cons, Bool.and_eq_true] at hbs
    rw [List.cons_append, tokens_blank hbs.1, ih hbs.2]

/-- By induction on the tokens that a text consists of: scanning finds the first
    one, and then the others. -/
theorem Tokenizes.eq_tokens (h : Tokenizes text ts) : ts = tokens text := by
  induction h with
  | @done bs hbs =>
    have h : tokens (bs ++ []) = tokens [] := tokens_blanks hbs
    rw [List.append_nil, tokens_nil] at h
    exact h.symm
  | token hbs ht hext _ ih => rw [tokens_blanks hbs, tokens_shaped ht hext, ih]

/-- The tokens of a text are the only ones that it consists of, if each is
    written as its kind says and takes all that it can. The last of them is the
    end of the text, the others are not. -/
theorem tokenizes_iff (source : String) :
    (∀ ts, Tokenizes source.toList ts ↔ ts = tokenize source) ∧
      (tokenize source).getLast? = some eof ∧ ∀ t ∈ (tokenize source).dropLast, t.kind ≠ .eof := by
  refine ⟨fun ts => ⟨Tokenizes.eq_tokens, ?_⟩, getLast?_tokenize source,
    fun _ => kind_ne_eof_of_mem⟩
  rintro rfl
  exact tokenizes_tokens source.toList

/-! ### Blanks between two texts -/

/-- A blank ends every token, so what stands before it and what stands after it
    are cut apart. -/
theorem Tokenizes.append_blank (hx : Tokenizes xs ts) (hc : isBlank c = true)
    (hy : Tokenizes ys us) : Tokenizes (xs ++ c :: ys) (ts.dropLast ++ us) := by
  induction hx with
  | @done bs hbs =>
    have hbs' : (bs ++ [c]).all isBlank = true := by simp [hbs, hc]
    simpa using hy.blanks hbs'
  | @token bs rest t ts hbs ht hext h ih =>
    have hext' : ∀ d ∈ (rest ++ c :: ys).head?, t.kind.extendedBy d = false := by
      cases rest with
      | nil => simpa using extendedBy_of_isBlank hc
      | cons d rest => simpa using hext
    have := Tokenizes.token hbs ht hext' ih
    rw [List.dropLast_cons_of_ne_nil h.ne_nil]
    simpa using this

theorem tokens_append_blank (hc : isBlank c = true) :
    tokens (xs ++ c :: ys) = (tokens xs).dropLast ++ tokens ys :=
  ((tokenizes_tokens xs).append_blank hc (tokenizes_tokens ys)).eq_tokens.symm

theorem tokenize_append_blank {a b : String} (hc : isBlank c = true) :
    tokenize (a ++ String.singleton c ++ b) = (tokenize a).dropLast ++ tokenize b := by
  rw [tokenize, String.toList_append, String.toList_append, String.toList_singleton,
    List.append_assoc, List.singleton_append]
  exact tokens_append_blank hc

/-- All tokens of a text but its end are such as a text may consist of. -/
theorem Tokenizes.shaped (h : Tokenizes text ts) : ∀ t ∈ ts.dropLast, t.Shaped := by
  induction h with
  | done => exact fun t ht => absurd ht List.not_mem_nil
  | token _ ht _ h ih =>
    rw [List.dropLast_cons_of_ne_nil h.ne_nil, List.forall_mem_cons]
    exact ⟨ht, ih⟩

/-- The literal of a token, alone, is a text of that token. -/
theorem tokenize_literal (h : t.Shaped) : tokenize t.literal = [t, eof] := by
  have ht : tokens (t.literal.toList ++ []) = t :: tokens [] :=
    tokens_shaped h fun c hc => absurd hc (Option.not_mem_none c)
  rwa [List.append_nil, tokens_nil] at ht

/-- By induction on the tokens: their literals with a blank between any two are
    a text of them. -/
theorem tokenize_intercalate (hc : isBlank c = true) (h : ∀ t ∈ ts, t.Shaped) :
    tokenize ((String.singleton c).intercalate (ts.map literal)) = ts ++ [eof] := by
  induction ts with
  | nil => exact tokens_nil
  | cons t ts ih =>
    rw [List.forall_mem_cons] at h
    cases ts with
    | nil => exact tokenize_literal h.1
    | cons u us =>
      rw [List.map_cons, List.map_cons, String.intercalate_cons_cons, tokenize_append_blank hc,
        tokenize_literal h.1, ← List.map_cons, ih h.2]
      rfl

/-- With a blank between them, the tokens of two texts are those of the one, but
    for its end, and then those of the other. So the literals of the tokens of a
    text, with a blank between any two, are a text of the same tokens. -/
theorem tokenize_separated (a b : String) {w : Char} (hw : isBlank w = true) :
    tokenize (a ++ String.singleton w ++ b) = (tokenize a).dropLast ++ tokenize b ∧
      tokenize ((String.singleton w).intercalate ((tokenize a).dropLast.map literal)) =
        tokenize a := by
  have hshaped : ∀ t ∈ (tokenize a).dropLast, t.Shaped := (tokenizes_tokens a.toList).shaped
  refine ⟨tokenize_append_blank hw, ?_⟩
  rw [tokenize_intercalate hw hshaped, ← tokenize_eq]

/-- Two texts that would be one token at the seam, `==`, without the blank. -/
theorem tokenize_separated_seam :
    isBlank ' ' = true ∧
      tokenize ("a1=" ++ String.singleton ' ' ++ "=@") =
        (tokenize "a1=").dropLast ++ tokenize "=@" ∧
      tokenize ("a1=" ++ "=@") ≠ (tokenize "a1=").dropLast ++ tokenize "=@" ∧
      tokenize (" ".intercalate ((tokenize "a1=").dropLast.map literal)) = tokenize "a1=" := by
  obtain ⟨happend, hjoin⟩ := tokenize_separated "a1=" "=@" (w := ' ') rfl
  exact ⟨rfl, happend, by decide +kernel, hjoin⟩

end Token

end ScriptFront
