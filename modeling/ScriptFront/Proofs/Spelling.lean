import Mathlib.Data.List.Basic
import ScriptFront.Token.Scan

/-!
# Spelling

How the tokens of each kind are written: symbols and reserved words in one way
(`Kind.spelling?`), names and numbers by their characters (`Token.Spelled`).

Scanning and spelling are inverse to each other. Every token of a text is
spelled as its kind says, or is an illegal one (`tokens_eq_append`); and what is
spelled so is scanned as the token that it spells, if no character after it
extends it (`tokens_spelled`).
-/

namespace ScriptFront

open Text

/-- The one way in which tokens of a kind are written, if there is only one. -/
def Kind.spelling? : Kind → Option String
  | illegal | eof | ident | int => none
  | assign => some "="
  | plus => some "+"
  | minus => some "-"
  | bang => some "!"
  | asterisk => some "*"
  | slash => some "/"
  | lt => some "<"
  | gt => some ">"
  | eq => some "=="
  | notEq => some "!="
  | comma => some ","
  | semicolon => some ";"
  | lparen => some "("
  | rparen => some ")"
  | lbrace => some "\x7b"
  | rbrace => some "\x7d"
  | kwFn => some "fn"
  | kwLet => some "let"
  | kwTrue => some "true"
  | kwFalse => some "false"
  | kwIf => some "if"
  | kwElse => some "else"
  | kwReturn => some "return"

/-- Whether tokens of a kind end only where no letter or digit follows. -/
def Kind.isWord : Kind → Bool
  | ident | int | kwFn | kwLet | kwTrue | kwFalse | kwIf | kwElse | kwReturn => true
  | _ => false

namespace Token

/-- A letter and the letters and digits after it. -/
def IsWord (w : String) : Prop :=
  ∃ c cs, w.toList = c :: cs ∧ isLetter c = true ∧ cs.all isWordChar = true

/-- Digits, one at least. -/
def IsNumber (w : String) : Prop :=
  ∃ c cs, w.toList = c :: cs ∧ c.isDigit = true ∧ cs.all Char.isDigit = true

/-- The tokens that are written as their kind says. -/
inductive Spelled : Token → Prop
  /-- A symbol or a reserved word. -/
  | fixed {k : Kind} {w : String} : k.spelling? = some w → Spelled ⟨k, w⟩
  /-- A word that is not reserved. -/
  | name {w : String} : IsWord w → Kind.ofWord w = .ident → Spelled ⟨.ident, w⟩
  /-- A number. -/
  | number {w : String} : IsNumber w → Spelled ⟨.int, w⟩

/-- Whether the characters after a token do not extend it. -/
def EndsBefore (t : Token) (rest : List Char) : Prop :=
  ∀ c ∈ rest.head?, (t.kind.isWord → isWordChar c = false) ∧
    (t.kind = .assign ∨ t.kind = .bang → c ≠ '=')

variable {t : Token} {c : Char} {cs rest text : List Char} {w : String} {k : Kind}

/-- A token of a kind with one spelling is written in that way. -/
theorem Spelled.literal_eq (h : t.Spelled) (hw : t.kind.spelling? = some w) : t.literal = w := by
  cases h with
  | fixed h => exact Option.some.inj (h.symm.trans hw)
  | name | number => cases hw

theorem Spelled.kind_ne_eof (h : t.Spelled) : t.kind ≠ .eof := by
  intro hk
  cases h with
  | fixed hw => cases hk; cases hw
  | name | number => cases hk

/-! ### Characters -/

theorem toNat_of_isDigit (h : c.isDigit = true) : 48 ≤ c.toNat ∧ c.toNat ≤ 57 := by
  simp only [Char.isDigit, Bool.and_eq_true, decide_eq_true_eq, ge_iff_le,
    UInt32.le_iff_toNat_le] at h
  exact h

/-- The letters, with `_`, lie between `A` and `z`. -/
theorem toNat_of_isLetter (h : isLetter c = true) : 65 ≤ c.toNat ∧ c.toNat ≤ 122 := by
  obtain h | h := Bool.or_eq_true_iff.mp h
  · obtain h | h := Bool.or_eq_true_iff.mp h
    · obtain ⟨h₁, h₂⟩ : c.val ≥ 'A'.val ∧ c.val ≤ 'Z'.val := of_decide_eq_true h
      exact ⟨h₁, Nat.le_trans h₂ (by decide)⟩
    · obtain ⟨h₁, h₂⟩ := Bool.and_eq_true_iff.mp h
      exact ⟨Nat.le_trans (by decide) (of_decide_eq_true h₁), of_decide_eq_true h₂⟩
  · rw [eq_of_beq h]
    decide

/-- The characters of ASCII that are seen on a page are not blanks. -/
theorem isBlank_of_toNat (h : 33 ≤ c.toNat) (h' : c.toNat ≤ 126) : isBlank c = false := by
  rw [Bool.eq_false_iff, isBlank, ne_eq, inIntervals_iff]
  rintro ⟨i, hi, h₁, h₂⟩
  have hout : ∀ i ∈ blankIntervals, i.2 < 33 ∨ 126 < i.1 := by decide
  have := hout i hi
  omega

theorem isBlank_of_isLetter (h : isLetter c = true) : isBlank c = false := by
  have := toNat_of_isLetter h
  exact isBlank_of_toNat (by omega) (by omega)

theorem isBlank_of_isDigit (h : c.isDigit = true) : isBlank c = false := by
  have := toNat_of_isDigit h
  exact isBlank_of_toNat (by omega) (by omega)

theorem isLetter_of_isDigit (h : c.isDigit = true) : isLetter c = false := by
  rw [Bool.eq_false_iff]
  intro h'
  have hd := toNat_of_isDigit h
  have hl := toNat_of_isLetter h'
  omega

theorem isDigit_of_isWordChar (h : isWordChar c = false) : c.isDigit = false := by
  simp only [isWordChar, Bool.or_eq_false_iff] at h
  exact h.2

/-- A symbol is no blank, letter or digit, and is the spelling of its kind. -/
theorem of_ofSymbol? (h : Kind.ofSymbol? c = some k) :
    isBlank c = false ∧ isLetter c = false ∧ c.isDigit = false ∧
      k.spelling? = some (String.singleton c) ∧ (c = '=' → k = .assign) ∧
      (c = '!' → k = .bang) := by
  unfold Kind.ofSymbol? at h
  split at h <;> cases h <;> decide

/-- Only `=` and `!` have the kinds of which longer symbols start. -/
theorem eq_of_ofSymbol? (h : Kind.ofSymbol? c = some k) (hk : k = .assign ∨ k = .bang) :
    c = '=' ∨ c = '!' := by
  unfold Kind.ofSymbol? at h
  rcases hk with rfl | rfl
  · split at h <;> cases h
    exact .inl rfl
  · split at h <;> cases h
    exact .inr rfl

/-! ### Words -/

/-- A word is a name, or it is the spelling of its kind. -/
theorem spelling?_ofWord (w : String) :
    Kind.ofWord w = .ident ∨ (Kind.ofWord w).spelling? = some w := by
  rw [Kind.ofWord]
  rcases h : Kind.reserved.lookup w with _ | k
  · exact .inl rfl
  · obtain ⟨us, vs, hus, -⟩ := List.lookup_eq_some_iff.1 h
    have hk : (w, k) ∈ Kind.reserved := by simp [hus]
    have hreserved : ∀ r ∈ Kind.reserved, r.2.spelling? = some r.1 := by decide
    exact .inr (hreserved _ hk)

/-- A spelling is one character, a word, or one of the symbols of two. -/
theorem of_spelling? (h : k.spelling? = some w) :
    (∃ c, w = String.singleton c ∧ Kind.ofSymbol? c = some k) ∨
      (IsWord w ∧ Kind.ofWord w = k ∧ k.isWord = true) ∨
      (k = .eq ∧ w = "==") ∨ (k = .notEq ∧ w = "!=") := by
  cases k <;> cases h
  case assign => exact .inl ⟨'=', rfl, rfl⟩
  case plus => exact .inl ⟨'+', rfl, rfl⟩
  case minus => exact .inl ⟨'-', rfl, rfl⟩
  case bang => exact .inl ⟨'!', rfl, rfl⟩
  case asterisk => exact .inl ⟨'*', rfl, rfl⟩
  case slash => exact .inl ⟨'/', rfl, rfl⟩
  case lt => exact .inl ⟨'<', rfl, rfl⟩
  case gt => exact .inl ⟨'>', rfl, rfl⟩
  case comma => exact .inl ⟨',', rfl, rfl⟩
  case semicolon => exact .inl ⟨';', rfl, rfl⟩
  case lparen => exact .inl ⟨'(', rfl, rfl⟩
  case rparen => exact .inl ⟨')', rfl, rfl⟩
  case lbrace => exact .inl ⟨'\x7b', rfl, rfl⟩
  case rbrace => exact .inl ⟨'\x7d', rfl, rfl⟩
  case eq => exact .inr (.inr (.inl ⟨rfl, rfl⟩))
  case notEq => exact .inr (.inr (.inr ⟨rfl, rfl⟩))
  all_goals exact .inr (.inl ⟨⟨_, _, rfl, rfl, rfl⟩, rfl, rfl⟩)

/-! ### Scanning what is spelled -/

/-- What is accepted up to a character that is not is taken, and no more. -/
theorem takeWhile_append_of_head? {f : Char → Bool} (hcs : cs.all f = true)
    (hr : ∀ c ∈ rest.head?, f c = false) :
    (cs ++ rest).takeWhile f = cs ∧ (cs ++ rest).dropWhile f = rest := by
  rw [List.takeWhile_append_of_pos (List.all_eq_true.1 hcs),
    List.dropWhile_append_of_pos (List.all_eq_true.1 hcs)]
  cases rest with
  | nil => simp
  | cons c rest => simp [hr c rfl]

theorem tokens_nil : tokens [] = [eof] := tokens_of_dropWhile_nil rfl

/-- Blanks before a token are skipped. -/
theorem tokens_blank (h : isBlank c = true) : tokens (c :: rest) = tokens rest := by
  have hd : (c :: rest).dropWhile isBlank = rest.dropWhile isBlank := by
    rw [List.dropWhile_cons, if_pos h]
  rcases hr : rest.dropWhile isBlank with _ | ⟨c', rest'⟩
  · rw [tokens_of_dropWhile_nil (hd.trans hr), tokens_of_dropWhile_nil hr]
  · rw [tokens_of_dropWhile_cons (hd.trans hr), tokens_of_dropWhile_cons hr]

/-- A character that is no blank starts a token. -/
theorem tokens_cons (h : isBlank c = false) :
    tokens (c :: rest) = (scanFrom c rest).1 :: tokens (scanFrom c rest).2 :=
  tokens_of_dropWhile_cons (by rw [List.dropWhile_cons, h]; rfl)

/-- A letter starts a word. -/
theorem scanFrom_of_isLetter (h : isLetter c = true) :
    scanFrom c rest = (⟨Kind.ofWord (String.ofList (c :: rest.takeWhile isWordChar)),
      String.ofList (c :: rest.takeWhile isWordChar)⟩, rest.dropWhile isWordChar) := by
  unfold scanFrom
  rw [if_pos h]

theorem scanFrom_of_isDigit (h : c.isDigit = true) :
    scanFrom c rest = (⟨.int, String.ofList (c :: rest.takeWhile Char.isDigit)⟩,
      rest.dropWhile Char.isDigit) := by
  unfold scanFrom
  rw [if_neg (by simp [isLetter_of_isDigit h]), if_pos h]

/-- A word before no letter or digit is scanned as a token. -/
theorem tokens_word (h : IsWord w) (hr : ∀ c ∈ rest.head?, isWordChar c = false) :
    tokens (w.toList ++ rest) = ⟨Kind.ofWord w, w⟩ :: tokens rest := by
  obtain ⟨c, cs, hw, hc, hcs⟩ := h
  obtain ⟨ht, hd⟩ := takeWhile_append_of_head? hcs hr
  rw [hw, List.cons_append, tokens_cons (isBlank_of_isLetter hc), scanFrom_of_isLetter hc, ht, hd,
    ← hw, String.ofList_toList]

theorem tokens_number (h : IsNumber w) (hr : ∀ c ∈ rest.head?, c.isDigit = false) :
    tokens (w.toList ++ rest) = ⟨.int, w⟩ :: tokens rest := by
  obtain ⟨c, cs, hw, hc, hcs⟩ := h
  obtain ⟨ht, hd⟩ := takeWhile_append_of_head? hcs hr
  rw [hw, List.cons_append, tokens_cons (isBlank_of_isDigit hc), scanFrom_of_isDigit hc, ht, hd,
    ← hw, String.ofList_toList]

/-- A symbol is scanned alone, unless it is the beginning of another one: only `=`
    and `!` are, with `=` after them. -/
theorem scanFrom_of_ofSymbol? (h : Kind.ofSymbol? c = some k)
    (hr : k = .assign ∨ k = .bang → ∀ c ∈ rest.head?, c ≠ '=') :
    scanFrom c rest = (⟨k, String.singleton c⟩, rest) := by
  obtain ⟨-, hl, hd, -, ha, hb⟩ := of_ofSymbol? h
  unfold scanFrom
  rw [if_neg (by simp [hl]), if_neg (by simp [hd])]
  split
  next => exact absurd rfl (hr (.inl (ha rfl)) '=' rfl)
  next => exact absurd rfl (hr (.inr (hb rfl)) '=' rfl)
  next => rw [h]; rfl

/-- Any other character is an illegal token alone. -/
theorem scanFrom_illegal (hl : ¬isLetter c = true) (hd : ¬c.isDigit = true)
    (hs : Kind.ofSymbol? c = none) :
    scanFrom c rest = (⟨.illegal, String.singleton c⟩, rest) := by
  unfold scanFrom
  rw [if_neg hl, if_neg hd]
  split
  next => cases hs
  next => cases hs
  next => rw [hs]; rfl

theorem tokens_symbol (h : Kind.ofSymbol? c = some k)
    (hr : k = .assign ∨ k = .bang → ∀ c ∈ rest.head?, c ≠ '=') :
    tokens (c :: rest) = ⟨k, String.singleton c⟩ :: tokens rest := by
  rw [tokens_cons (of_ofSymbol? h).1, scanFrom_of_ofSymbol? h hr]

/-- What is spelled as a token is scanned as that token. -/
theorem tokens_spelled (h : t.Spelled) (hr : t.EndsBefore rest) :
    tokens (t.literal.toList ++ rest) = t :: tokens rest := by
  cases h with
  | name hw hk => rw [tokens_word hw fun c hc => (hr c hc).1 rfl, hk]
  | number hw => exact tokens_number hw fun c hc => isDigit_of_isWordChar ((hr c hc).1 rfl)
  | fixed hw =>
    obtain ⟨c, rfl, hc⟩ | ⟨hword, rfl, hk⟩ | ⟨rfl, rfl⟩ | ⟨rfl, rfl⟩ := of_spelling? hw
    · rw [String.toList_singleton]
      exact tokens_symbol hc fun hk c hc => (hr c hc).2 hk
    · exact tokens_word hword fun c hc => (hr c hc).1 hk
    · exact tokens_cons rfl
    · exact tokens_cons rfl

/-! ### Spelling what is scanned -/

/-- A token that is scanned is illegal or written as its kind says. -/
theorem spelled_scanFrom (c : Char) (rest : List Char) :
    (scanFrom c rest).1.kind = .illegal ∨ (scanFrom c rest).1.Spelled := by
  by_cases hc : isLetter c
  · rw [scanFrom_of_isLetter hc]
    have hw : IsWord (String.ofList (c :: rest.takeWhile isWordChar)) :=
      ⟨c, _, String.toList_ofList, hc, List.all_takeWhile⟩
    rcases spelling?_ofWord (String.ofList (c :: rest.takeWhile isWordChar)) with hk | hk
    · exact .inr (by simpa only [hk] using Spelled.name hw hk)
    · exact .inr (.fixed hk)
  by_cases hd : c.isDigit
  · rw [scanFrom_of_isDigit hd]
    exact .inr (.number ⟨c, _, String.toList_ofList, hd, List.all_takeWhile⟩)
  unfold scanFrom
  rw [if_neg hc, if_neg hd]
  split
  · exact .inr (.fixed rfl)
  · exact .inr (.fixed rfl)
  · rcases hk : Kind.ofSymbol? _ with _ | k
    · exact .inl rfl
    · exact .inr (.fixed (of_ofSymbol? hk).2.2.2.1)

theorem kind_scanFrom_ne_eof (c : Char) (rest : List Char) : (scanFrom c rest).1.kind ≠ .eof := by
  rcases spelled_scanFrom c rest with hk | hs
  · simp [hk]
  · exact hs.kind_ne_eof

/-- Scanning finds the end only where nothing but blanks is left, and otherwise
    leaves less of the text. -/
theorem scan_cases (text : List Char) :
    (scan text = (eof, []) ∧ tokens text = [eof]) ∨
      ((scan text).1.kind ≠ .eof ∧ (scan text).2.length < text.length ∧
        tokens text = (scan text).1 :: tokens (scan text).2) := by
  rw [scan]
  rcases h : text.dropWhile isBlank with _ | ⟨c, rest⟩
  · exact .inl ⟨rfl, tokens_of_dropWhile_nil h⟩
  · exact .inr ⟨kind_scanFrom_ne_eof c rest, length_scanFrom_lt h, tokens_of_dropWhile_cons h⟩

/-- The tokens of a text end with its end, and every other one is illegal or
    written as its kind says. -/
theorem tokens_eq_append (text : List Char) :
    ∃ ts, tokens text = ts ++ [eof] ∧ ∀ t ∈ ts, t.kind = .illegal ∨ t.Spelled := by
  induction text using tokens.induct with
  | case1 text h => exact ⟨[], tokens_of_dropWhile_nil h, by simp⟩
  | case2 text c rest h _ ih =>
    obtain ⟨ts, hts, hall⟩ := ih
    refine ⟨(scanFrom c rest).1 :: ts, by rw [tokens_of_dropWhile_cons h, hts]; rfl, ?_⟩
    intro t ht
    rcases List.mem_cons.1 ht with rfl | ht
    · exact spelled_scanFrom c rest
    · exact hall t ht

/-- The last token of a text is its end. -/
theorem tokenize_eq (source : String) : tokenize source = (tokenize source).dropLast ++ [eof] := by
  obtain ⟨ts, hts, -⟩ := tokens_eq_append source.toList
  rw [tokenize, hts, List.dropLast_concat]

theorem getLast?_tokenize (source : String) : (tokenize source).getLast? = some eof := by
  rw [tokenize_eq, List.getLast?_concat]

/-- All tokens of a text but its end are illegal or written as their kind says. -/
theorem spelled_of_mem {source : String} (h : t ∈ (tokenize source).dropLast) :
    t.kind = .illegal ∨ t.Spelled := by
  obtain ⟨ts, hts, hall⟩ := tokens_eq_append source.toList
  rw [tokenize, hts, List.dropLast_concat] at h
  exact hall t h

theorem kind_ne_eof_of_mem {source : String} (h : t ∈ (tokenize source).dropLast) :
    t.kind ≠ .eof := by
  rcases spelled_of_mem h with hk | hs
  · simp [hk]
  · exact hs.kind_ne_eof

/-- Only the last token of a text is its end. -/
theorem kind_getElem_ne_eof {source : String} {i : Nat} (hi : i + 1 < (tokenize source).length) :
    (tokenize source)[i].kind ≠ .eof := by
  have hlt : i < (tokenize source).dropLast.length := by
    rw [List.length_dropLast]
    omega
  have hmem := List.getElem_mem hlt
  rw [List.getElem_dropLast] at hmem
  exact kind_ne_eof_of_mem hmem

end Token

end ScriptFront
