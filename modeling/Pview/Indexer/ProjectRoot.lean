import Pview.Foundation.Components
import Pview.Indexer.SourcePath

/-!
# Files of the project

A file belongs to the project when its path is below the root component by
component, and is then stored relative to the root.  The code compares
characters and strips as many as the root has.
-/

namespace Pview.Indexer

open Pview.Foundation

/-- What `set_project_root` accepts. -/
structure ProjectRoot where
  path : String
  rooted : path.toList.head? = some '/'

structure AbsolutePath where
  path : String
  rooted : path.toList.head? = some '/'
  noRepeats : NoRepeats '/' path.toList
  noDots : ∀ name ∈ components '/' path.toList,
    name ≠ ['.'] ∧ name ≠ ['.', '.']

structure IsRelative (root file relative : String) : Prop where
  ending : relative.toList <:+ file.toList
  notRooted : relative.toList.head? ≠ some '/'
  names : components '/' file.toList =
    components '/' root.toList ++ components '/' relative.toList

/-- What the comment of `simplify_source_path` says about its result. -/
structure Simplified (root file : String) (result : String × Bool) : Prop where
  belongs : result.2 = true ↔ StrictlyInside '/' root.toList file.toList
  relative : result.2 = true → IsRelative root file result.1
  unchanged : result.2 = false → result.1 = file

/-- Where the file's text starts with the root's, the root ends with a slash
and the file is not the root itself; and a root with repeated slashes has no
file below it. -/
def Strips (root file : String) : Prop :=
  (root.toList <+: file.toList →
    root.toList.getLast? = some '/' ∧ file ≠ root) ∧
  (StrictlyInside '/' root.toList file.toList → NoRepeats '/' root.toList)

/-! ## The three results -/

theorem simplifySourcePath_of_not_isPrefix {root file : String}
    (h : ¬root.toList <+: file.toList) :
    simplifySourcePath root file = (file, false) := by
  rw [simplifySourcePath, if_neg]
  rwa [stringStartsWith, List.isPrefixOf_iff_prefix]

theorem simplifySourcePath_self (root : String) :
    simplifySourcePath root root = ("", false) := by
  simp [simplifySourcePath, stringStartsWith]

theorem simplifySourcePath_of_append {root file : String} {s : List Char}
    (hfile : file.toList = root.toList ++ s) (hne : s ≠ []) :
    simplifySourcePath root file = (String.ofList s, true) := by
  have hlength : file.length - root.length = s.length := by
    rw [← String.length_toList, ← String.length_toList, hfile]
    simp
  have hdrop : file.toList.drop root.length = s := by
    rw [← String.length_toList, hfile, List.drop_left]
  have hstarts : stringStartsWith file root = true := by
    rw [stringStartsWith, List.isPrefixOf_iff_prefix, hfile]
    exact List.prefix_append _ _
  have hpositive : s.length ≠ 0 := by simpa using hne
  rw [simplifySourcePath, if_pos hstarts]
  simp only [hlength, if_neg hpositive, hdrop]

/-! ## When the result is the promised one -/

variable {root : ProjectRoot} {file other : AbsolutePath}

theorem ProjectRoot.slash_mem (root : ProjectRoot) :
    '/' ∈ root.path.toList :=
  List.mem_of_head? root.rooted

theorem simplified_of_not_isPrefix (h : ¬root.path.toList <+: file.path.toList)
    (hstrips : Strips root.path file.path) :
    Simplified root.path file.path (file.path, false) where
  belongs := by
    refine ⟨nofun, fun hinside => absurd ?_ h⟩
    exact hinside.isPrefix root.rooted file.rooted (hstrips.2 hinside)
      file.noRepeats
  relative := nofun
  unchanged _ := rfl

theorem simplified_of_append {s : List Char}
    (hfile : file.path.toList = root.path.toList ++ s) (hne : s ≠ [])
    (hslash : root.path.toList.getLast? = some '/') :
    Simplified root.path file.path (String.ofList s, true) := by
  obtain ⟨dir, hdir⟩ := List.getLast?_eq_some_iff.mp hslash
  have hrepeats := file.noRepeats
  rw [hfile, hdir] at hrepeats
  obtain ⟨hinside, hhead⟩ := strictlyInside_of_concat hne hrepeats
  have hnames : components '/' file.path.toList =
      components '/' root.path.toList ++ components '/' s := by
    rw [hfile, hdir, List.append_assoc, List.singleton_append,
      components_append, components_concat]
  rw [← hdir, ← hfile] at hinside
  exact
    { belongs := ⟨fun _ => hinside, fun _ => rfl⟩
      relative := fun _ =>
        ⟨by simp [hfile], by simpa using hhead, by simpa using hnames⟩
      unchanged := nofun }

theorem strips_of_simplified
    (h : Simplified root.path file.path
      (simplifySourcePath root.path file.path)) :
    Strips root.path file.path := by
  by_cases hprefix : root.path.toList <+: file.path.toList
  · obtain ⟨s, hs⟩ := hprefix
    have hrepeats := file.noRepeats
    rw [← hs] at hrepeats
    cases s with
    | nil =>
        have hsame : root.path = file.path := by
          simpa [String.toList_inj] using hs
        rw [hsame, simplifySourcePath_self] at h
        have hempty : file.path = "" := (h.unchanged rfl).symm
        simpa [hempty] using file.rooted
    | cons a s =>
        rw [simplifySourcePath_of_append hs.symm (by simp)] at h
        refine ⟨fun _ => ⟨?_, ?_⟩, fun _ => hrepeats.left_of_append⟩
        · by_contra hlast
          have hinside := h.belongs.mp rfl
          rw [← hs] at hinside
          exact not_strictlyInside_of_append root.slash_mem hlast (by simp)
            (by simpa using (h.relative rfl).notRooted) hinside
        · intro hsame
          simp [hsame] at hs
  · rw [simplifySourcePath_of_not_isPrefix hprefix] at h
    exact ⟨fun h' => absurd h' hprefix, fun hinside =>
      absurd (h.belongs.mpr hinside) (by simp)⟩

theorem simplifySourcePath_of_strips (h : Strips root.path file.path) :
    (∃ s, file.path.toList = root.path.toList ++ s ∧
      Simplified root.path file.path (String.ofList s, true) ∧
      simplifySourcePath root.path file.path = (String.ofList s, true)) ∨
    Simplified root.path file.path (file.path, false) ∧
      simplifySourcePath root.path file.path = (file.path, false) := by
  by_cases hprefix : root.path.toList <+: file.path.toList
  · obtain ⟨hslash, hdiffers⟩ := h.1 hprefix
    obtain ⟨s, hs⟩ := hprefix
    have hne : s ≠ [] := by
      rintro rfl
      exact hdiffers (by simpa [String.toList_inj] using hs.symm)
    exact .inl ⟨s, hs.symm, simplified_of_append hs.symm hne hslash,
      simplifySourcePath_of_append hs.symm hne⟩
  · exact .inr ⟨simplified_of_not_isPrefix hprefix h,
      simplifySourcePath_of_not_isPrefix hprefix⟩

theorem simplified_of_strips (h : Strips root.path file.path) :
    Simplified root.path file.path
      (simplifySourcePath root.path file.path) := by
  rcases simplifySourcePath_of_strips h with ⟨s, -, hs, heq⟩ | ⟨hs, heq⟩
  · rwa [heq]
  · rwa [heq]

private theorem ne_of_stripped {s : List Char}
    (h : Simplified root.path file.path (String.ofList s, true)) :
    String.ofList s ≠ other.path := by
  intro heq
  exact (h.relative rfl).notRooted (by rw [heq, other.rooted])

/-- A stripped path differs from all that are left as they are. -/
theorem simplifySourcePath_injective (hfile : Strips root.path file.path)
    (hother : Strips root.path other.path)
    (h : (simplifySourcePath root.path file.path).1 =
      (simplifySourcePath root.path other.path).1) :
    file.path = other.path := by
  rcases simplifySourcePath_of_strips hfile with
    ⟨s, hs, hstripped, heq⟩ | ⟨-, heq⟩ <;>
  rcases simplifySourcePath_of_strips hother with
    ⟨t, ht, htstripped, hteq⟩ | ⟨-, hteq⟩ <;>
  rw [heq, hteq] at h
  · rw [← String.toList_inj, hs, ht, String.ofList_inj.mp h]
  · exact absurd h (ne_of_stripped hstripped)
  · exact absurd h.symm (ne_of_stripped htstripped)
  · exact h

theorem strips_of_trailing_slash
    (hslash : root.path.toList.getLast? = some '/')
    (hrepeats : NoRepeats '/' root.path.toList)
    (hdiffers : file.path ≠ root.path) : Strips root.path file.path :=
  ⟨fun _ => ⟨hslash, hdiffers⟩, fun _ => hrepeats⟩

theorem simplifySourcePath_simplified_iff (root : ProjectRoot)
    (file other : AbsolutePath) :
    Simplified root.path file.path (simplifySourcePath root.path file.path) ∧
      Simplified root.path other.path
        (simplifySourcePath root.path other.path) ∧
      (file.path ≠ other.path →
        (simplifySourcePath root.path file.path).1 ≠
          (simplifySourcePath root.path other.path).1) ↔
    Strips root.path file.path ∧ Strips root.path other.path := by
  constructor
  · rintro ⟨hfile, hother, -⟩
    exact ⟨strips_of_simplified hfile, strips_of_simplified hother⟩
  · rintro ⟨hfile, hother⟩
    exact ⟨simplified_of_strips hfile, simplified_of_strips hother,
      fun hne heq => hne (simplifySourcePath_injective hfile hother heq)⟩

/-- Without a slash at the end of the root, a file of the project is taken
for one that lies outside. -/
theorem simplifySourcePath_collides :
    ¬∀ (root : ProjectRoot) (file other : AbsolutePath),
      Simplified root.path file.path (simplifySourcePath root.path file.path) ∧
      Simplified root.path other.path
        (simplifySourcePath root.path other.path) ∧
      (file.path ≠ other.path →
        (simplifySourcePath root.path file.path).1 ≠
          (simplifySourcePath root.path other.path).1) := by
  intro hall
  have hinjective := (hall ⟨"/path/to/project", by decide⟩
    ⟨"/path/to/project/subdir/file.cc", by decide, by decide, by decide⟩
    ⟨"/subdir/file.cc", by decide, by decide, by decide⟩).2.2
  exact hinjective (by decide) (by decide)

end Pview.Indexer
