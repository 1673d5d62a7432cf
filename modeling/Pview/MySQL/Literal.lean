import Mathlib.Data.List.Basic

/-!
# Double-quoted literals

`readLiteral` is MySQL's reading of a string literal after its opening quote,
with backslash escapes active: a doubled quote denotes a quote, an escape
denotes one character, except that `\%` and `\_` denote themselves.

A generated statement is a list of pieces.  The piece `str s` stands for a
place where the template has a placeholder between double quotes; nothing is
escaped when it is filled in.
-/

namespace Pview.MySQL

def quote : Char := Char.ofNat 34

def backslash : Char := Char.ofNat 92

def unescape (c : Char) : List Char :=
  if c = '0' then
    [Char.ofNat 0]
  else if c = 'b' then
    [Char.ofNat 8]
  else if c = 'n' then
    [Char.ofNat 10]
  else if c = 'r' then
    [Char.ofNat 13]
  else if c = 't' then
    [Char.ofNat 9]
  else if c = 'Z' then
    [Char.ofNat 26]
  else if c = '%' ∨ c = '_' then
    [backslash, c]
  else
    [c]

def readLiteral : List Char → Option (List Char × List Char)
  | [] => none
  | c :: rest =>
      if c = quote then
        match rest with
        | [] => some ([], [])
        | d :: rest' =>
            if d = quote then
              (readLiteral rest').map fun out => (quote :: out.1, out.2)
            else
              some ([], d :: rest')
      else if c = backslash then
        match rest with
        | [] => none
        | d :: rest' =>
            (readLiteral rest').map fun out => (unescape d ++ out.1, out.2)
      else
        (readLiteral rest).map fun out => (c :: out.1, out.2)

/-- No quote, and every backslash is followed by `%` or `_`. -/
def clean : List Char → Bool
  | [] => true
  | c :: rest =>
      if c = quote then
        false
      else if c = backslash then
        match rest with
        | [] => false
        | d :: rest' => (d = '%' || d = '_') && clean rest'
      else
        clean rest

theorem readLiteral_cons {c : Char} (hquote : c ≠ quote)
    (hbackslash : c ≠ backslash) (rest : List Char) :
    readLiteral (c :: rest) =
      (readLiteral rest).map fun out => (c :: out.1, out.2) := by
  rw [readLiteral.eq_def]
  simp [hquote, hbackslash]

theorem clean_cons {c : Char} (hquote : c ≠ quote)
    (hbackslash : c ≠ backslash) (rest : List Char) :
    clean (c :: rest) = clean rest := by
  rw [clean.eq_def]
  simp [hquote, hbackslash]

private theorem unescape_length_le (c : Char) : (unescape c).length ≤ 2 := by
  unfold unescape
  split_ifs <;> simp

private theorem unescape_eq_of_length {c : Char}
    (h : (unescape c).length = 2) :
    unescape c = [backslash, c] ∧ (c = '%' || c = '_') = true := by
  unfold unescape at h ⊢
  split_ifs at h ⊢ <;> simp_all

private theorem read_rest {read : Option (List Char × List Char)}
    {f : List Char → List Char} {value rest : List Char}
    (h : (read.map fun out => (f out.1, out.2)) = some (value, rest)) :
    ∃ value', read = some (value', rest) ∧ value = f value' := by
  obtain ⟨⟨value', after⟩, hread, hout⟩ := Option.map_eq_some_iff.mp h
  cases hout
  exact ⟨value', hread, rfl⟩

private theorem backslash_ne_quote : backslash ≠ quote := by decide

theorem readLiteral_length_le {input value rest : List Char}
    (h : readLiteral input = some (value, rest)) :
    value.length + rest.length + 1 ≤ input.length := by
  fun_induction readLiteral input generalizing value with
  | case1 => contradiction
  | case2 =>
      cases h
      simp
  | case3 rest' ih =>
      obtain ⟨value', hread, rfl⟩ := read_rest h
      have hlength := ih hread
      simp only [List.length_cons]
      omega
  | case4 =>
      cases h
      simp
  | case5 => contradiction
  | case6 d rest' _ ih =>
      obtain ⟨value', hread, rfl⟩ := read_rest h
      have hlength := ih hread
      have hunescape := unescape_length_le d
      simp only [List.length_append, List.length_cons]
      omega
  | case7 c rest' _ _ ih =>
      obtain ⟨value', hread, rfl⟩ := read_rest h
      have hlength := ih hread
      simp only [List.length_cons]
      omega

/-- A reading that keeps the length of the text is the identity on it. -/
theorem eq_of_readLiteral {input value rest : List Char}
    (h : readLiteral input = some (value, rest))
    (hlength : value.length + rest.length + 1 = input.length) :
    input = value ++ quote :: rest ∧ clean value = true := by
  fun_induction readLiteral input generalizing value with
  | case1 => contradiction
  | case2 =>
      cases h
      simp [clean]
  | case3 rest' ih =>
      obtain ⟨value', hread, rfl⟩ := read_rest h
      have hshorter := readLiteral_length_le hread
      simp only [List.length_cons] at hlength
      omega
  | case4 =>
      cases h
      simp [clean]
  | case5 => contradiction
  | case6 d rest' _ ih =>
      obtain ⟨value', hread, rfl⟩ := read_rest h
      have hshorter := readLiteral_length_le hread
      have hunescape := unescape_length_le d
      simp only [List.length_append, List.length_cons] at hlength
      obtain ⟨hpair, hkept⟩ := unescape_eq_of_length (c := d) (by omega)
      obtain ⟨hinput, hclean⟩ := ih hread (by omega)
      rw [hpair, hinput]
      refine ⟨rfl, ?_⟩
      simp only [List.cons_append, List.nil_append, clean,
        backslash_ne_quote, if_false, if_true, hkept, hclean, Bool.and_self]
  | case7 c rest' hquote hbackslash ih =>
      obtain ⟨value', hread, rfl⟩ := read_rest h
      simp only [List.length_cons] at hlength
      obtain ⟨hinput, hclean⟩ := ih hread (by omega)
      rw [hinput]
      exact ⟨rfl, by rw [clean_cons hquote hbackslash, hclean]⟩

theorem readLiteral_of_clean {value after : List Char}
    (h : clean value = true) (hafter : after.head? ≠ some quote) :
    readLiteral (value ++ quote :: after) = some (value, after) := by
  fun_induction clean value with
  | case1 =>
      cases after with
      | nil => simp [readLiteral]
      | cons d after =>
          have hd : d ≠ quote := by simpa using hafter
          simp [readLiteral, hd]
  | case2 => contradiction
  | case3 => contradiction
  | case4 d rest' _ ih =>
      rw [Bool.and_eq_true] at h
      have hunescape : unescape d = [backslash, d] := by
        unfold unescape
        simp only [Bool.or_eq_true, decide_eq_true_eq] at h
        rcases h.1 with rfl | rfl <;> decide
      simp [readLiteral, backslash_ne_quote, ih h.2, hunescape]
  | case5 c rest' hquote hbackslash ih =>
      rw [List.cons_append, readLiteral_cons hquote hbackslash, ih h]
      rfl

theorem readLiteral_eq_iff {value after : List Char}
    (hafter : after.head? ≠ some quote) :
    readLiteral (value ++ quote :: after) = some (value, after) ↔
      clean value = true := by
  constructor
  · intro h
    have hlength : value.length + after.length + 1 =
        (value ++ quote :: after).length := by
      simp
      omega
    exact (eq_of_readLiteral h hlength).2
  · intro h
    exact readLiteral_of_clean h hafter

/-! ## Generated statements -/

inductive Piece where
  | text (s : String)
  | int (n : Int)
  | bool (b : Bool)
  | str (s : String)
  deriving DecidableEq, Repr

def Piece.render : Piece → String
  | .text s => s
  | .int n => toString n
  | .bool b => toString b
  | .str s => String.singleton quote ++ s ++ String.singleton quote

def render : List Piece → String
  | [] => ""
  | piece :: pieces => piece.render ++ render pieces

theorem render_append (left right : List Piece) :
    render (left ++ right) = render left ++ render right := by
  induction left with
  | nil => simp [render]
  | cons piece left ih => simp [render, ih, String.append_assoc]

/-- Read from the quote that the template opens, the literal of every string
ends at the quote that the template closes, and denotes that string. -/
def ReadsBack (pieces : List Piece) : Prop :=
  ∀ before s after, pieces = before ++ .str s :: after →
    readLiteral (s.toList ++ quote :: (render after).toList) =
      some (s.toList, (render after).toList)

def continues : List Piece → Bool
  | .text s :: _ => s.toList.head?.any fun c => c ≠ quote
  | _ => false

def separated : List Piece → Bool
  | [] => true
  | .str _ :: rest => continues rest && separated rest
  | _ :: rest => separated rest

theorem head_ne_quote_of_continues {pieces : List Piece}
    (h : continues pieces = true) :
    (render pieces).toList.head? ≠ some quote := by
  cases pieces with
  | nil => simp [continues] at h
  | cons piece pieces =>
      cases piece with
      | text s =>
          cases hs : s.toList with
          | nil => simp [continues, hs] at h
          | cons c rest =>
              simp only [continues, hs, List.head?_cons, Option.any_some,
                decide_eq_true_eq] at h
              simp [render, Piece.render, hs, h]
      | int => simp [continues] at h
      | bool => simp [continues] at h
      | str => simp [continues] at h

private theorem continues_append {left : List Piece}
    (h : continues left = true) (right : List Piece) :
    continues (left ++ right) = true := by
  cases left with
  | nil => simp [continues] at h
  | cons piece left => cases piece <;> simp_all [continues]

theorem separated_append {left right : List Piece}
    (hleft : separated left = true) (hright : separated right = true) :
    separated (left ++ right) = true := by
  induction left with
  | nil => exact hright
  | cons piece left ih =>
      cases piece with
      | str s =>
          simp only [separated, Bool.and_eq_true] at hleft
          simp [separated, continues_append hleft.1, ih hleft.2]
      | text => exact ih hleft
      | int => exact ih hleft
      | bool => exact ih hleft

theorem separated_split {before after : List Piece} {s : String}
    (h : separated (before ++ .str s :: after) = true) :
    continues after = true := by
  induction before with
  | nil =>
      simp only [List.nil_append, separated, Bool.and_eq_true] at h
      exact h.1
  | cons piece before ih =>
      cases piece with
      | str =>
          simp only [List.cons_append, separated, Bool.and_eq_true] at h
          exact ih h.2
      | text => exact ih h
      | int => exact ih h
      | bool => exact ih h

theorem readsBack_iff {pieces : List Piece} (h : separated pieces = true) :
    ReadsBack pieces ↔ ∀ s, .str s ∈ pieces → clean s.toList = true := by
  constructor
  · intro hreads s hs
    obtain ⟨before, after, rfl⟩ := List.append_of_mem hs
    have hafter := head_ne_quote_of_continues (separated_split h)
    exact (readLiteral_eq_iff hafter).1 (hreads before s after rfl)
  · rintro hclean before s after rfl
    have hafter := head_ne_quote_of_continues (separated_split h)
    exact (readLiteral_eq_iff hafter).2 (hclean s (by simp))

end Pview.MySQL
