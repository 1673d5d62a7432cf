import Pview.Foundation.Fuel
import Pview.Foundation.StdString

/-!
# Anonymous scopes in qualified names

`simplify_anonymous` shortens the texts that stand for anonymous scopes, in
place and by positions counted by hand.  It goes on behind the opening
parenthesis, inside what it has just written.
-/

namespace Pview.Indexer

open Pview.Foundation
open Pview.Foundation.StdString

/-- The test of the branch: `compare` is reached only with enough left.  The
difference does not wrap, as a match starts in front of `i`. -/
def isAnonymousNamespace (name : List Char) (i : Nat) :
    Except OutOfRange Bool :=
  if name.length - i > 19 then
    compareEq name (i + 10) 9 "namespace".toList
  else .ok false

def shortenAnonymous (name : List Char) (i : Nat) :
    Except OutOfRange (List Char) :=
  match isAnonymousNamespace name i with
  | .ok true => replace name i 19 "anon ns".toList
  | .ok false => replace name i 9 "anon".toList
  | .error e => .error e

def simplifyAnonymousLoop :
    Nat → List Char → Nat → Option (Except OutOfRange (List Char))
  | 0, _, _ => none
  | fuel + 1, name, i =>
      match find name "(anonymous ".toList i with
      | none => some (.ok name)
      | some i =>
          match shortenAnonymous name (i + 1) with
          | .ok name => simplifyAnonymousLoop fuel name (i + 1)
          | .error e => some (.error e)

def simplifyAnonymous (fuel : Nat) (name : String) :
    Option (Except OutOfRange String) :=
  (simplifyAnonymousLoop fuel name.toList 0).map (Except.map String.ofList)

/-! ## What is written in place of what -/

/-- The shortening that applies at the front of `text`, with the number of
characters it stands for. -/
def anonymousRule (text : List Char) : Option (List Char × Nat) :=
  if "(anonymous namespace".toList <+: text ∧ 20 < text.length then
    some ("(anon ns".toList, 20)
  else if "(anonymous ".toList <+: text then
    some ("(anon ".toList, 11)
  else none

theorem anonymousRule_eq_none_iff {text : List Char} :
    anonymousRule text = none ↔ ¬ "(anonymous ".toList <+: text := by
  have hshort : "(anonymous namespace".toList <+: text →
      "(anonymous ".toList <+: text := .trans (by decide)
  rw [anonymousRule]
  split
  · rename_i hlong
    simp only [reduceCtorEq, false_iff, not_not]
    exact hshort hlong.1
  · split <;> simp_all

private theorem anonymousRule_eq_none (text : List Char)
    (h : ¬ "(anonymous ".toList <+: text) : anonymousRule text = none :=
  anonymousRule_eq_none_iff.mpr h

def StartsNamespace (after : List Char) : Prop :=
  "namespace".toList <+: after ∧ 9 < after.length

instance (after : List Char) : Decidable (StartsNamespace after) :=
  inferInstanceAs (Decidable (_ ∧ _))

theorem isAnonymousNamespace_append (front after : List Char) :
    isAnonymousNamespace (front ++ ("(anonymous ".toList ++ after))
        (front.length + 1) = .ok (decide (StartsNamespace after)) := by
  have hleft : (front ++ ("(anonymous ".toList ++ after)).length -
      (front.length + 1) = 10 + after.length := by
    simp
    omega
  have hpos : front.length + 1 + 10 =
      (front ++ "(anonymous ".toList).length := by
    simp
  have hcompare : (after.take 9 == "namespace".toList) =
      decide ("namespace".toList <+: after) := by
    rw [Bool.eq_iff_iff, beq_iff_eq, decide_eq_true_iff,
      List.prefix_iff_eq_take]
    exact eq_comm
  rw [isAnonymousNamespace, hleft, hpos, ← List.append_assoc, compareEq,
    substr_append]
  by_cases hlong : 9 < after.length
  · have hboth : StartsNamespace after ↔ "namespace".toList <+: after :=
      and_iff_left hlong
    rw [if_pos (by omega), decide_eq_decide.mpr hboth, ← hcompare]
    rfl
  · have hshort : ¬ StartsNamespace after := fun h => hlong h.2
    rw [if_neg (by omega), decide_eq_false hshort]

theorem exists_of_startsNamespace {after : List Char}
    (h : StartsNamespace after) :
    ∃ rest, after = "namespace".toList ++ rest ∧ rest ≠ [] := by
  obtain ⟨⟨rest, rfl⟩, hlong⟩ := h
  refine ⟨rest, rfl, ?_⟩
  rintro rfl
  simp at hlong

/-- At an occurrence the code and the rule write the same, whose tail the
search then passes over. -/
theorem exists_shortened (front after : List Char) :
    ∃ skipped rest, '(' ∉ skipped ∧ rest.length ≤ after.length ∧
      shortenAnonymous (front ++ ("(anonymous ".toList ++ after))
          (front.length + 1) =
        .ok (front ++ ('(' :: (skipped ++ rest))) ∧
      rewrite anonymousRule ("(anonymous ".toList ++ after) =
        '(' :: (skipped ++ rewrite anonymousRule rest) := by
  have hsplit : "(anonymous ".toList ++ "namespace".toList =
      "(anonymous namespace".toList := rfl
  by_cases hnamespace : StartsNamespace after
  · obtain ⟨rest, rfl, hne⟩ := exists_of_startsNamespace hnamespace
    refine ⟨"anon ns".toList, rest, by decide, ?_, ?_, ?_⟩
    · rw [List.length_append]
      exact Nat.le_add_left _ _
    · rw [shortenAnonymous, isAnonymousNamespace_append,
        decide_eq_true hnamespace]
      have hedit := replace_append (front ++ ['('])
        "anonymous namespace".toList rest "anon ns".toList
      simpa using hedit
    · have hrule : anonymousRule ("(anonymous namespace".toList ++ rest) =
          some ("(anon ns".toList, 20) := by
        have hpos := List.length_pos_iff.mpr hne
        rw [anonymousRule, if_pos ⟨List.prefix_append _ _, by simp; omega⟩]
      rw [← List.append_assoc, hsplit,
        rewrite_append_of_some (by decide) hrule]
      rfl
  · refine ⟨"anon ".toList, after, by decide, le_refl _, ?_, ?_⟩
    · rw [shortenAnonymous, isAnonymousNamespace_append,
        decide_eq_false hnamespace]
      have hedit := replace_append (front ++ ['('])
        "anonymous".toList (' ' :: after) "anon".toList
      simpa using hedit
    · have hrule : anonymousRule ("(anonymous ".toList ++ after) =
          some ("(anon ".toList, 11) := by
        rw [anonymousRule, if_neg, if_pos (List.prefix_append _ _)]
        rintro ⟨hlong, hlength⟩
        have hanonymous : "(anonymous ".toList.length = 11 := rfl
        rw [List.length_append, hanonymous] at hlength
        refine hnamespace ⟨?_, by omega⟩
        rwa [← hsplit, List.prefix_append_right_inj] at hlong
      exact rewrite_append_of_some (by decide) hrule

/-! ## The loop -/

private theorem find_skipped {done skipped rest : List Char}
    (hskipped : '(' ∉ skipped) :
    find (done ++ (skipped ++ rest)) "(anonymous ".toList done.length =
      (find rest "(anonymous ".toList 0).map
        ((done ++ skipped).length + ·) := by
  rw [← find_append, List.append_assoc]
  refine find_eq_find_of_le (by simp) fun i hle hlt hoccurs => ?_
  obtain ⟨k, rfl⟩ := Nat.exists_eq_add_of_le hle
  rw [occursAt_append_left] at hoccurs
  rw [List.length_append] at hlt
  exact hskipped (hoccurs.head_mem (by omega))

/-- In front of `i` is what is finished; of what comes next only `rest`, the
end of the original name, can hold an occurrence. -/
theorem simplifyAnonymousLoop_converges (done skipped rest : List Char)
    (hskipped : '(' ∉ skipped) :
    Converges
      (fun fuel => simplifyAnonymousLoop fuel (done ++ (skipped ++ rest))
        done.length)
      (.ok (done ++ (skipped ++ rewrite anonymousRule rest))) := by
  induction hlen : rest.length using Nat.strong_induction_on
      generalizing done skipped rest with
  | h n ih =>
      by_cases hfound : "(anonymous ".toList <:+: rest
      · obtain ⟨before, after, rfl, hfirst⟩ := exists_first_of_isInfix hfound
        obtain ⟨skipped', rest', hskipped', hle, hedit, hrewrite⟩ :=
          exists_shortened (done ++ (skipped ++ before)) after
        -- the next search starts inside what was written, which holds no
        -- parenthesis
        have hnext := ih rest'.length (by simp at hlen; omega)
          (done ++ (skipped ++ (before ++ ['(']))) skipped' rest'
          hskipped' rfl
        rw [rewrite_append_of_first anonymousRule_eq_none hfirst, hrewrite]
        simp only [List.append_assoc, List.cons_append, List.nil_append,
          List.length_append, List.length_singleton, Nat.add_assoc]
          at hnext hedit ⊢
        refine hnext.of_succ fun fuel => ?_
        rw [simplifyAnonymousLoop, find_skipped hskipped,
          find_eq_length_of_first hfirst]
        simp only [Option.map_some, List.length_append, Nat.add_assoc]
        rw [hedit]
      · refine .of_const fun fuel => ?_
        rw [simplifyAnonymousLoop, find_skipped hskipped,
          find_eq_none_of_not_isInfix hfound,
          rewrite_of_not_isInfix anonymousRule_eq_none hfound]
        rfl

/-! ## What is left -/

theorem written_of_anonymousRule {text written : List Char} {width : Nat}
    (h : anonymousRule text = some (written, width)) :
    written = "(anon ns".toList ∨ written = "(anon ".toList := by
  rw [anonymousRule] at h
  split at h
  · exact .inl (by cases h; rfl)
  · split at h
    · exact .inr (by cases h; rfl)
    · cases h

theorem head?_of_anonymousRule (text written : List Char) (width : Nat)
    (h : anonymousRule text = some (written, width)) :
    written.head? = some '(' := by
  rcases written_of_anonymousRule h with rfl | rfl <;> rfl

theorem not_occursAt_written {text written rest : List Char} {width : Nat}
    (h : anonymousRule text = some (written, width))
    (hrest : ∀ i, ¬ OccursAt "(anonymous ".toList rest i) (i : Nat) :
    ¬ OccursAt "(anonymous ".toList (written ++ rest) i := by
  obtain ⟨skipped, rfl, hskipped, hhere⟩ : ∃ skipped,
      written = '(' :: skipped ∧ '(' ∉ skipped ∧
        ¬ "(anonymous ".toList <+: '(' :: (skipped ++ rest) := by
    rcases written_of_anonymousRule h with rfl | rfl
    · exact ⟨"anon ns".toList, rfl, by decide, by simp⟩
    · exact ⟨"anon ".toList, rfl, by decide, by simp⟩
  cases i with
  | zero => exact fun hi => hhere (occursAt_zero.mp hi)
  | succ i =>
      rw [List.cons_append, occursAt_cons_succ]
      exact not_occursAt_append hskipped hrest i

theorem not_occursAt_rewriteFrom (skip : Nat) (text : List Char) (i : Nat) :
    ¬ OccursAt "(anonymous ".toList (rewriteFrom anonymousRule skip text)
      i := by
  induction skip, text using rewriteFrom.induct anonymousRule
      generalizing i with
  | case1 skip =>
      rw [rewriteFrom]
      intro h
      simpa using h.lt_length (by decide)
  | case2 skip a rest ih => exact ih i
  | case3 a rest written width hrule ih =>
      simp only [rewriteFrom, hrule]
      exact not_occursAt_written hrule ih i
  | case4 a rest hrule ih =>
      simp only [rewriteFrom, hrule]
      cases i with
      | zero =>
          rw [occursAt_zero]
          intro h
          obtain ⟨rfl, htail⟩ := List.cons_prefix_cons.mp h
          have hrest := isPrefix_of_isPrefix_rewrite head?_of_anonymousRule
            (by decide) htail
          exact anonymousRule_eq_none_iff.mp hrule
            (List.cons_prefix_cons.mpr ⟨rfl, hrest⟩)
      | succ i =>
          rw [occursAt_cons_succ]
          exact ih i

theorem simplifyAnonymous_run {name result : String}
    (hresult : result.toList = rewrite anonymousRule name.toList) :
    Converges (fun fuel => simplifyAnonymous fuel name) (.ok result) := by
  rw [← String.ofList_toList (s := result), hresult]
  exact (simplifyAnonymousLoop_converges [] [] name.toList (by simp)).map
    (Except.map String.ofList)

/-- The name is rewritten by the rule; nothing is left to shorten, so a second
call changes nothing. -/
theorem simplifyAnonymous_converges (name : String) :
    ∃ result,
      Converges (fun fuel => simplifyAnonymous fuel name) (.ok result) ∧
        result.toList = rewrite anonymousRule name.toList ∧
        ¬ "(anonymous ".toList <:+: result.toList ∧
        Converges (fun fuel => simplifyAnonymous fuel result)
          (.ok result) := by
  obtain ⟨result, hresult⟩ : ∃ result : String,
      result.toList = rewrite anonymousRule name.toList :=
    ⟨_, String.toList_ofList⟩
  have hnone : ¬ "(anonymous ".toList <:+: result.toList := by
    rw [hresult]
    exact not_infix_iff.mpr (not_occursAt_rewriteFrom 0 name.toList)
  have hagain : result.toList = rewrite anonymousRule result.toList :=
    (rewrite_of_not_isInfix anonymousRule_eq_none hnone).symm
  exact ⟨result, simplifyAnonymous_run hresult, hresult, hnone,
    simplifyAnonymous_run hagain⟩

/-- With nothing behind it, only the first half is shortened. -/
example : rewrite anonymousRule "(anonymous namespace".toList =
    "(anon namespace".toList := by
  decide

end Pview.Indexer
