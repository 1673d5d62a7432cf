import Mathlib.Data.Finset.Card
import Mathlib.Logic.Relation
import Pview.Foundation.Fuel

/-!
# Depth-first search with a shared visited set

The search walks lists of labelled entries.  An entry whose key was visited
before, on any branch, is skipped; otherwise the key is marked, and either the
key is a hit or the search descends into its successors.  The fuel is the
number of nested descents, so that convergence also bounds the recursion
depth.

Two descriptions of the result are proved.  A failing search has visited
exactly what is reachable around the keys marked before it.  A succeeding
search returns the leftmost route: at every level it passes over exactly the
entries from which no hit can be reached around the route itself.
-/

namespace Pview.Foundation.DepthFirst

/-! ## Reachability around a set of keys -/

section Reachability

variable {κ ℓ : Type*} (succ : κ → List (κ × ℓ)) (hit : κ → Bool)

def Edge (u v : κ) : Prop := ∃ entry ∈ succ u, entry.1 = v

/-- A path from `u` to `v`, both ends included, outside `avoid`. -/
def ReachAvoiding (avoid : Finset κ) (u v : κ) : Prop :=
  u ∉ avoid ∧ Relation.ReflTransGen (fun a b => Edge succ a b ∧ b ∉ avoid) u v

def Live (avoid : Finset κ) (u : κ) : Prop :=
  ∃ v, ReachAvoiding succ avoid u v ∧ hit v = true

variable {succ : κ → List (κ × ℓ)} {hit : κ → Bool}

theorem ReachAvoiding.refl {avoid : Finset κ} {u : κ} (h : u ∉ avoid) :
    ReachAvoiding succ avoid u u := ⟨h, .refl⟩

theorem ReachAvoiding.tail {avoid : Finset κ} {u v w : κ}
    (h : ReachAvoiding succ avoid u v) (hedge : Edge succ v w)
    (hw : w ∉ avoid) : ReachAvoiding succ avoid u w :=
  ⟨h.1, h.2.tail ⟨hedge, hw⟩⟩

theorem ReachAvoiding.head {avoid : Finset κ} {u v w : κ}
    (hu : u ∉ avoid) (hedge : Edge succ u v)
    (h : ReachAvoiding succ avoid v w) : ReachAvoiding succ avoid u w :=
  ⟨hu, .head ⟨hedge, h.1⟩ h.2⟩

theorem ReachAvoiding.not_mem {avoid : Finset κ} {u v : κ}
    (h : ReachAvoiding succ avoid u v) : v ∉ avoid := by
  obtain ⟨hu, hpath⟩ := h
  cases hpath with
  | refl => exact hu
  | tail _ hlast => exact hlast.2

theorem ReachAvoiding.mono {avoid avoid' : Finset κ} (hsub : avoid ⊆ avoid')
    {u v : κ} (h : ReachAvoiding succ avoid' u v) :
    ReachAvoiding succ avoid u v :=
  ⟨fun hu => h.1 (hsub hu),
    Relation.ReflTransGen.mono
      (fun _ _ hstep => ⟨hstep.1, fun hmem => hstep.2 (hsub hmem)⟩) _ _ h.2⟩

theorem Live.of_reach {avoid : Finset κ} {u v : κ}
    (h : ReachAvoiding succ avoid u v) (hv : Live succ hit avoid v) :
    Live succ hit avoid u := by
  obtain ⟨w, hw, hhit⟩ := hv
  exact ⟨w, ⟨h.1, h.2.trans hw.2⟩, hhit⟩

theorem Live.head {avoid avoid' : Finset κ} (hsub : avoid ⊆ avoid') {u : κ}
    (hu : u ∉ avoid) {entry : κ × ℓ} (hentry : entry ∈ succ u)
    (h : Live succ hit avoid' entry.1) : Live succ hit avoid u := by
  obtain ⟨v, hv, hhit⟩ := h
  exact ⟨v, .head hu ⟨entry, hentry, rfl⟩ (hv.mono hsub), hhit⟩

theorem ReachAvoiding.around {avoid avoid' : Finset κ}
    (hdead : ∀ w ∈ avoid', w ∉ avoid → ¬Live succ hit avoid w) {u v : κ}
    (h : ReachAvoiding succ avoid u v) (hv : Live succ hit avoid v) :
    ReachAvoiding succ avoid' u v := by
  obtain ⟨hu, hpath⟩ := h
  induction hpath with
  | refl => exact .refl fun hmem => hdead _ hmem hu hv
  | @tail b c hbefore hstep ih =>
      have hb : Live succ hit avoid b :=
        .of_reach ((ReachAvoiding.refl
          (ReachAvoiding.not_mem ⟨hu, hbefore⟩)).tail hstep.1 hstep.2) hv
      exact (ih hb).tail hstep.1 fun hmem => hdead c hmem hstep.2 hv

theorem live_iff_of_dead {avoid avoid' : Finset κ} (hsub : avoid ⊆ avoid')
    (hdead : ∀ w ∈ avoid', w ∉ avoid → ¬Live succ hit avoid w) (u : κ) :
    Live succ hit avoid' u ↔ Live succ hit avoid u := by
  constructor
  · rintro ⟨v, hv, hhit⟩
    exact ⟨v, hv.mono hsub, hhit⟩
  · rintro ⟨v, hv, hhit⟩
    exact ⟨v, hv.around hdead ⟨v, .refl hv.not_mem, hhit⟩, hhit⟩

end Reachability

/-! ## The search -/

variable {κ ℓ : Type*} [DecidableEq κ]

/-- Keys visited by a search and, if it hit, the entries leading to the hit. -/
structure Found (κ ℓ : Type*) where
  visited : Finset κ
  route : Option (List (κ × ℓ))

section Search

variable (succ : κ → List (κ × ℓ)) (hit : κ → Bool)

def scan (descend : Finset κ → List (κ × ℓ) → Option (Found κ ℓ)) :
    Finset κ → List (κ × ℓ) → Option (Found κ ℓ)
  | visited, [] => some ⟨visited, none⟩
  | visited, entry :: rest =>
      if entry.1 ∈ visited then scan descend visited rest
      else if hit entry.1 then
        some ⟨insert entry.1 visited, some [entry]⟩
      else
        match descend (insert entry.1 visited) (succ entry.1) with
        | none => none
        | some ⟨visited, some route⟩ => some ⟨visited, some (entry :: route)⟩
        | some ⟨visited, none⟩ => scan descend visited rest

def search : Nat → Finset κ → List (κ × ℓ) → Option (Found κ ℓ)
  | 0, _, _ => none
  | depth + 1, visited, entries =>
      scan succ hit (search depth) visited entries

/-- The search without its depth bound, one rule for each way an entry goes. -/
inductive Runs : Finset κ → List (κ × ℓ) → Found κ ℓ → Prop
  | nil (visited) : Runs visited [] ⟨visited, none⟩
  | seen {visited entry rest out} (mem : entry.1 ∈ visited)
      (tail : Runs visited rest out) : Runs visited (entry :: rest) out
  | hit {visited entry} (rest) (fresh : entry.1 ∉ visited)
      (found : hit entry.1 = true) :
      Runs visited (entry :: rest) ⟨insert entry.1 visited, some [entry]⟩
  | found {visited entry} (rest) {visited' route} (fresh : entry.1 ∉ visited)
      (miss : hit entry.1 = false)
      (below : Runs (insert entry.1 visited) (succ entry.1)
        ⟨visited', some route⟩) :
      Runs visited (entry :: rest) ⟨visited', some (entry :: route)⟩
  | dead {visited entry rest visited' out} (fresh : entry.1 ∉ visited)
      (miss : hit entry.1 = false)
      (below : Runs (insert entry.1 visited) (succ entry.1) ⟨visited', none⟩)
      (tail : Runs visited' rest out) : Runs visited (entry :: rest) out

end Search

variable {succ : κ → List (κ × ℓ)} {hit : κ → Bool}

private theorem runs_of_scan
    {descend : Finset κ → List (κ × ℓ) → Option (Found κ ℓ)}
    (hdescend : ∀ visited entries out, descend visited entries = some out →
      Runs succ hit visited entries out)
    (visited : Finset κ) (entries : List (κ × ℓ)) (out : Found κ ℓ)
    (hscan : scan succ hit descend visited entries = some out) :
    Runs succ hit visited entries out := by
  induction entries generalizing visited with
  | nil =>
      cases hscan
      exact .nil visited
  | cons entry rest ih =>
      rw [scan] at hscan
      split at hscan
      · rename_i hmem
        exact .seen hmem (ih visited hscan)
      rename_i hfresh
      split at hscan
      · rename_i hfound
        cases hscan
        exact .hit rest hfresh hfound
      rename_i hmiss
      have hmiss : hit entry.1 = false := by simpa using hmiss
      split at hscan
      · contradiction
      · rename_i visited' route hbelow
        cases hscan
        exact .found rest hfresh hmiss (hdescend _ _ _ hbelow)
      · rename_i visited' hbelow
        exact .dead hfresh hmiss (hdescend _ _ _ hbelow) (ih visited' hscan)

theorem runs_of_search {depth : Nat} {visited : Finset κ}
    {entries : List (κ × ℓ)} {out : Found κ ℓ}
    (h : search succ hit depth visited entries = some out) :
    Runs succ hit visited entries out := by
  induction depth generalizing visited entries out with
  | zero => contradiction
  | succ depth ih =>
      exact runs_of_scan (fun _ _ _ => ih) visited entries out h

theorem Runs.subset {visited : Finset κ} {entries : List (κ × ℓ)}
    {out : Found κ ℓ} (h : Runs succ hit visited entries out) :
    visited ⊆ out.visited := by
  induction h with
  | nil visited => exact Finset.Subset.refl visited
  | seen _ _ ih => exact ih
  | hit _ _ _ => exact Finset.subset_insert _ _
  | found _ _ _ _ ih => exact (Finset.subset_insert _ _).trans ih
  | dead _ _ _ _ ihBelow ihTail =>
      exact (Finset.subset_insert _ _).trans (ihBelow.trans ihTail)

theorem Runs.route_ne_nil {visited : Finset κ} {entries : List (κ × ℓ)}
    {out : Found κ ℓ} (h : Runs succ hit visited entries out)
    {route : List (κ × ℓ)} (hroute : out.route = some route) : route ≠ [] := by
  induction h with
  | nil => contradiction
  | seen _ _ ih => exact ih hroute
  | hit =>
      cases hroute
      simp
  | found =>
      cases hroute
      simp
  | dead _ _ _ _ _ ih => exact ih hroute

/-! ## Depth -/

private theorem scan_mono
    {descend descend' : Finset κ → List (κ × ℓ) → Option (Found κ ℓ)}
    (hle : ∀ visited entries out, descend visited entries = some out →
      descend' visited entries = some out)
    (visited : Finset κ) (entries : List (κ × ℓ)) (out : Found κ ℓ)
    (h : scan succ hit descend visited entries = some out) :
    scan succ hit descend' visited entries = some out := by
  induction entries generalizing visited with
  | nil => exact h
  | cons entry rest ih =>
      rw [scan] at h ⊢
      by_cases hmem : entry.1 ∈ visited
      · rw [if_pos hmem] at h ⊢
        exact ih visited h
      rw [if_neg hmem] at h ⊢
      by_cases hfound : hit entry.1 = true
      · rw [if_pos hfound] at h ⊢
        exact h
      rw [if_neg hfound] at h ⊢
      cases hbelow : descend (insert entry.1 visited) (succ entry.1) with
      | none => simp [hbelow] at h
      | some found =>
          obtain ⟨visited', route⟩ := found
          rw [hbelow] at h
          rw [hle _ _ _ hbelow]
          cases route with
          | some route => exact h
          | none => exact ih visited' h

theorem search_mono (visited : Finset κ) (entries : List (κ × ℓ)) :
    FuelMono fun depth => search succ hit depth visited entries := by
  intro depth
  induction depth generalizing visited entries with
  | zero =>
      intro out h
      contradiction
  | succ depth ih =>
      intro out h
      exact scan_mono (fun _ _ => ih _ _) visited entries out h

private theorem scan_total {keys : Finset κ} {room : Nat}
    {descend : Finset κ → List (κ × ℓ) → Option (Found κ ℓ)}
    (hclosed : ∀ u ∈ keys, ∀ e ∈ succ u, e.1 ∈ keys)
    (hruns : ∀ visited entries out, descend visited entries = some out →
      Runs succ hit visited entries out)
    (htotal : ∀ visited entries, (∀ e ∈ entries, e.1 ∈ keys) →
      (keys \ visited).card < room →
      ∃ out, descend visited entries = some out)
    (visited : Finset κ) (entries : List (κ × ℓ))
    (hentries : ∀ e ∈ entries, e.1 ∈ keys)
    (hroom : (keys \ visited).card ≤ room) :
    ∃ out, scan succ hit descend visited entries = some out := by
  induction entries generalizing visited with
  | nil => exact ⟨_, rfl⟩
  | cons entry rest ih =>
      have hrest : ∀ e ∈ rest, e.1 ∈ keys := fun e he =>
        hentries e (List.mem_cons_of_mem _ he)
      have hentry : entry.1 ∈ keys := hentries entry List.mem_cons_self
      rw [scan]
      split
      · exact ih visited hrest hroom
      rename_i hfresh
      split
      · exact ⟨_, rfl⟩
      -- marking a fresh key uses up one unit of room
      have hmark : (keys \ insert entry.1 visited).card < room := by
        apply lt_of_lt_of_le (Finset.card_lt_card _) hroom
        rw [Finset.ssubset_iff_of_subset
          (Finset.sdiff_subset_sdiff (Finset.Subset.refl _)
            (Finset.subset_insert _ _))]
        exact ⟨entry.1, by simp [hentry, hfresh], by simp⟩
      obtain ⟨⟨visited', route⟩, hbelow⟩ :=
        htotal (insert entry.1 visited) (succ entry.1)
          (hclosed entry.1 hentry) hmark
      rw [hbelow]
      cases route with
      | some route => exact ⟨_, rfl⟩
      | none =>
          have hsub : insert entry.1 visited ⊆ visited' :=
            (hruns _ _ _ hbelow).subset
          exact ih visited' hrest (le_trans (Finset.card_le_card
            (Finset.sdiff_subset_sdiff (Finset.Subset.refl _) hsub)) hmark.le)

/-- In a finite closed set of keys the depth never exceeds the number of keys not
yet visited by more than one. -/
theorem search_total {keys : Finset κ}
    (hclosed : ∀ u ∈ keys, ∀ e ∈ succ u, e.1 ∈ keys)
    {depth : Nat} {visited : Finset κ} {entries : List (κ × ℓ)}
    (hentries : ∀ e ∈ entries, e.1 ∈ keys)
    (hdepth : (keys \ visited).card < depth) :
    ∃ out, search succ hit depth visited entries = some out := by
  induction depth generalizing visited entries with
  | zero => omega
  | succ depth ih =>
      exact scan_total hclosed (fun _ _ _ => runs_of_search)
        (fun _ _ => ih) visited entries hentries (by omega)

theorem search_converges {keys : Finset κ} (hit : κ → Bool)
    (hclosed : ∀ u ∈ keys, ∀ e ∈ succ u, e.1 ∈ keys)
    (visited : Finset κ) {entries : List (κ × ℓ)}
    (hentries : ∀ e ∈ entries, e.1 ∈ keys) :
    ∃ out, Converges (fun depth => search succ hit depth visited entries) out ∧
      Runs succ hit visited entries out := by
  obtain ⟨out, hout⟩ :
      ∃ out, search succ hit ((keys \ visited).card + 1) visited entries =
        some out :=
    search_total hclosed hentries (Nat.lt_succ_self _)
  exact ⟨out, (search_mono visited entries).converges hout,
    runs_of_search hout⟩

/-- Cut a path at its last visit of its first key. -/
theorem reachAvoiding_iff {avoid : Finset κ} {u v : κ} (hu : u ∉ avoid) :
    ReachAvoiding succ avoid u v ↔
      v = u ∨ ∃ entry ∈ succ u,
        ReachAvoiding succ (insert u avoid) entry.1 v := by
  constructor
  · rintro ⟨-, hpath⟩
    induction hpath with
    | refl => exact .inl rfl
    | @tail b c _ hstep ih =>
        by_cases hc : c = u
        · exact .inl hc
        right
        have hfresh : c ∉ insert u avoid := by simp [hc, hstep.2]
        rcases ih with rfl | ⟨entry, hentry, hreach⟩
        · obtain ⟨entry, hentry, rfl⟩ := hstep.1
          exact ⟨entry, hentry, .refl hfresh⟩
        · exact ⟨entry, hentry, hreach.tail hstep.1 hfresh⟩
  · rintro (rfl | ⟨entry, hentry, hreach⟩)
    · exact .refl hu
    · exact .head hu ⟨entry, hentry, rfl⟩
        (hreach.mono (Finset.subset_insert u avoid))

/-! ## A failing search -/

private theorem mem_or_reachAvoiding {avoid marked : Finset κ}
    (hclosed : ∀ a ∈ marked, a ∉ avoid → ∀ b, Edge succ a b → b ∉ avoid →
      b ∈ marked) {u v : κ} (h : ReachAvoiding succ avoid u v) :
    v ∈ marked ∨ ReachAvoiding succ marked u v := by
  obtain ⟨hu, hpath⟩ := h
  induction hpath with
  | refl =>
      by_cases hmem : u ∈ marked
      · exact .inl hmem
      · exact .inr (.refl hmem)
  | @tail b c hbefore hstep ih =>
      by_cases hc : c ∈ marked
      · exact .inl hc
      right
      rcases ih with hb | hreach
      · have hfresh : b ∉ avoid := ReachAvoiding.not_mem ⟨hu, hbefore⟩
        exact absurd (hclosed b hb hfresh c hstep.1 hstep.2) hc
      · exact hreach.tail hstep.1 hc

theorem Runs.mem_visited_iff {visited : Finset κ} {entries : List (κ × ℓ)}
    {out : Found κ ℓ} (h : Runs succ hit visited entries out)
    (hfail : out.route = none) (v : κ) :
    v ∈ out.visited ↔
      v ∈ visited ∨ ∃ entry ∈ entries,
        ReachAvoiding succ visited entry.1 v := by
  induction h generalizing v with
  | nil visited => simp
  | seen mem _ ih =>
      rw [ih hfail v, List.exists_mem_cons_iff]
      have hentry : ¬ReachAvoiding succ _ _ v := fun hreach => hreach.1 mem
      simp only [hentry, false_or]
  | hit => cases hfail
  | found => cases hfail
  | @dead visited entry rest visited' out fresh _ _ _ ihBelow ihTail =>
      -- what the descent marked is what the head entry reaches
      have hbelow : ∀ v, v ∈ visited' ↔
          v ∈ visited ∨ ReachAvoiding succ visited entry.1 v := by
        intro v
        rw [ihBelow rfl v, reachAvoiding_iff fresh, Finset.mem_insert]
        tauto
      have hsub : visited ⊆ visited' := fun v hv => (hbelow v).2 (.inl hv)
      have hclosed : ∀ a ∈ visited', a ∉ visited → ∀ b, Edge succ a b →
          b ∉ visited → b ∈ visited' := by
        intro a ha hfresh b hedge hb
        have hreach := ((hbelow a).1 ha).resolve_left hfresh
        exact (hbelow b).2 (.inr (hreach.tail hedge hb))
      rw [ihTail hfail v, List.exists_mem_cons_iff, hbelow v]
      constructor
      · rintro ((hv | hv) | ⟨entry', hmem, hreach⟩)
        · exact .inl hv
        · exact .inr (.inl hv)
        · exact .inr (.inr ⟨entry', hmem, hreach.mono hsub⟩)
      · rintro (hv | hv | ⟨entry', hmem, hreach⟩)
        · exact .inl (.inl hv)
        · exact .inl (.inr hv)
        · rcases mem_or_reachAvoiding hclosed hreach with hv | hreach'
          · exact .inl ((hbelow v).1 hv)
          · exact .inr ⟨entry', hmem, hreach'⟩

theorem Runs.miss_of_visited {visited : Finset κ} {entries : List (κ × ℓ)}
    {out : Found κ ℓ} (h : Runs succ hit visited entries out)
    (hfail : out.route = none) {v : κ} (hv : v ∈ out.visited)
    (hnew : v ∉ visited) : hit v = false := by
  induction h with
  | nil visited => exact absurd hv hnew
  | seen _ _ ih => exact ih hfail hv hnew
  | hit => cases hfail
  | found => cases hfail
  | @dead visited entry rest visited' out _ miss _ _ ihBelow ihTail =>
      by_cases hmarked : v ∈ visited'
      · by_cases hself : v = entry.1
        · exact hself ▸ miss
        · exact ihBelow rfl hmarked (by simp [hself, hnew])
      · exact ihTail hfail hv hmarked

theorem Runs.dead_of_visited {visited : Finset κ} {entries : List (κ × ℓ)}
    {out : Found κ ℓ} (h : Runs succ hit visited entries out)
    (hfail : out.route = none) {w : κ} (hw : w ∈ out.visited)
    (hnew : w ∉ visited) : ¬Live succ hit visited w := by
  rintro ⟨v, hv, hhit⟩
  obtain ⟨entry, hentry, hreach⟩ :=
    ((h.mem_visited_iff hfail w).1 hw).resolve_left hnew
  have hmarked : v ∈ out.visited :=
    (h.mem_visited_iff hfail v).2
      (.inr ⟨entry, hentry, hreach.1, hreach.2.trans hv.2⟩)
  have hmiss := h.miss_of_visited hfail hmarked hv.not_mem
  rw [hhit] at hmiss
  contradiction

theorem Runs.not_live_of_fail {visited : Finset κ} {entries : List (κ × ℓ)}
    {out : Found κ ℓ} (h : Runs succ hit visited entries out)
    (hfail : out.route = none) {entry : κ × ℓ} (hentry : entry ∈ entries) :
    ¬Live succ hit visited entry.1 := by
  intro hlive
  have hfresh : entry.1 ∉ visited := by
    obtain ⟨v, hv, -⟩ := hlive
    exact hv.1
  have hmarked : entry.1 ∈ out.visited :=
    (h.mem_visited_iff hfail entry.1).2 (.inr ⟨entry, hentry, .refl hfresh⟩)
  exact h.dead_of_visited hfail hmarked hfresh hlive

/-! ## The leftmost route -/

/-- `LeftmostRoute avoid entries route`: the route follows, at every level, the
first entry from which a hit is reachable around the route so far. -/
inductive LeftmostRoute (succ : κ → List (κ × ℓ)) (hit : κ → Bool) :
    Finset κ → List (κ × ℓ) → List (κ × ℓ) → Prop
  | skip {avoid entry rest route} (dead : ¬Live succ hit avoid entry.1)
      (later : LeftmostRoute succ hit avoid rest route) :
      LeftmostRoute succ hit avoid (entry :: rest) route
  | here {avoid entry} (rest) (fresh : entry.1 ∉ avoid)
      (found : hit entry.1 = true) :
      LeftmostRoute succ hit avoid (entry :: rest) [entry]
  | descend {avoid entry} (rest) {route} (fresh : entry.1 ∉ avoid)
      (miss : hit entry.1 = false)
      (below : LeftmostRoute succ hit (insert entry.1 avoid) (succ entry.1)
        route) :
      LeftmostRoute succ hit avoid (entry :: rest) (entry :: route)

theorem LeftmostRoute.head {avoid : Finset κ} {entries route : List (κ × ℓ)}
    (h : LeftmostRoute succ hit avoid entries route) :
    ∃ entry ∈ entries, ∃ below, route = entry :: below := by
  induction h with
  | skip _ _ ih =>
      obtain ⟨entry, hentry, hroute⟩ := ih
      exact ⟨entry, List.mem_cons_of_mem _ hentry, hroute⟩
  | @here _ entry => exact ⟨entry, List.mem_cons_self, [], rfl⟩
  | @descend _ entry _ below => exact ⟨entry, List.mem_cons_self, below, rfl⟩

theorem LeftmostRoute.live {avoid : Finset κ} {entries route : List (κ × ℓ)}
    (h : LeftmostRoute succ hit avoid entries route) :
    ∃ entry ∈ entries, Live succ hit avoid entry.1 := by
  induction h with
  | skip _ _ ih =>
      obtain ⟨entry, hentry, hlive⟩ := ih
      exact ⟨entry, List.mem_cons_of_mem _ hentry, hlive⟩
  | here _ fresh found =>
      exact ⟨_, List.mem_cons_self, _, .refl fresh, found⟩
  | descend _ fresh _ _ ih =>
      obtain ⟨entry, hentry, hlive⟩ := ih
      exact ⟨_, List.mem_cons_self,
        .head (Finset.subset_insert _ _) fresh hentry hlive⟩

theorem LeftmostRoute.unique {avoid : Finset κ}
    {entries route route' : List (κ × ℓ)}
    (h : LeftmostRoute succ hit avoid entries route)
    (h' : LeftmostRoute succ hit avoid entries route') : route = route' := by
  induction h generalizing route' with
  | skip dead _ ih =>
      cases h' with
      | skip _ later => exact ih later
      | here _ fresh found => exact absurd ⟨_, .refl fresh, found⟩ dead
      | descend _ fresh _ below =>
          obtain ⟨entry, hentry, hlive⟩ := below.live
          exact absurd (.head (Finset.subset_insert _ _) fresh hentry hlive)
            dead
  | here _ fresh found =>
      cases h' with
      | skip dead _ => exact absurd ⟨_, .refl fresh, found⟩ dead
      | here => rfl
      | descend _ _ miss _ =>
          rw [found] at miss
          contradiction
  | descend _ fresh miss below ih =>
      cases h' with
      | skip dead _ =>
          obtain ⟨entry, hentry, hlive⟩ := below.live
          exact absurd (.head (Finset.subset_insert _ _) fresh hentry hlive)
            dead
      | here _ _ found =>
          rw [found] at miss
          contradiction
      | descend _ _ _ below' => rw [ih below']

theorem LeftmostRoute.nodup {avoid : Finset κ} {entries route : List (κ × ℓ)}
    (h : LeftmostRoute succ hit avoid entries route) :
    (route.map Prod.fst).Nodup ∧ ∀ entry ∈ route, entry.1 ∉ avoid := by
  induction h with
  | skip _ _ ih => exact ih
  | here _ fresh _ => simp [fresh]
  | @descend avoid entry _ route fresh _ _ ih =>
      obtain ⟨hnodup, havoid⟩ := ih
      have hnew : ∀ e ∈ route, e.1 ≠ entry.1 ∧ e.1 ∉ avoid := by
        intro e he
        simpa [not_or] using havoid e he
      constructor
      · rw [List.map_cons, List.nodup_cons]
        refine ⟨?_, hnodup⟩
        intro hmem
        obtain ⟨e, he, heq⟩ := List.mem_map.mp hmem
        exact (hnew e he).1 heq
      · intro e he
        rcases List.mem_cons.mp he with rfl | he
        · exact fresh
        · exact (hnew e he).2

theorem LeftmostRoute.isChain {avoid : Finset κ} {entries route : List (κ × ℓ)}
    (h : LeftmostRoute succ hit avoid entries route) :
    route.IsChain fun before after => after ∈ succ before.1 := by
  induction h with
  | skip _ _ ih => exact ih
  | here => exact .singleton _
  | descend _ _ _ below ih =>
      obtain ⟨entry, hentry, rest, rfl⟩ := below.head
      exact .cons_cons hentry ih

theorem LeftmostRoute.hit_getLast {avoid : Finset κ}
    {entries route : List (κ × ℓ)}
    (h : LeftmostRoute succ hit avoid entries route) :
    ∃ last, route.getLast? = some last ∧ hit last.1 = true := by
  induction h with
  | skip _ _ ih => exact ih
  | @here _ entry _ _ found => exact ⟨entry, rfl, found⟩
  | descend _ _ _ below ih =>
      obtain ⟨entry, -, rest, rfl⟩ := below.head
      simpa using ih

theorem LeftmostRoute.forget {avoid avoid' : Finset κ}
    {entries route : List (κ × ℓ)} (hsub : avoid ⊆ avoid')
    (hdead : ∀ w ∈ avoid', w ∉ avoid → ¬Live succ hit avoid w)
    (h : LeftmostRoute succ hit avoid' entries route) :
    LeftmostRoute succ hit avoid entries route := by
  induction h generalizing avoid with
  | skip dead _ ih =>
      exact .skip (fun hlive => dead ((live_iff_of_dead hsub hdead _).2 hlive))
        (ih hsub hdead)
  | here rest fresh found =>
      exact .here rest (fun hmem => fresh (hsub hmem)) found
  | @descend _ entry rest _ fresh miss _ ih =>
      refine .descend rest (fun hmem => fresh (hsub hmem)) miss
        (ih (Finset.insert_subset_insert _ hsub) ?_)
      intro w hw hnew hlive
      have hne : w ≠ entry.1 := fun heq => hnew (heq ▸ Finset.mem_insert_self ..)
      refine hdead w (Finset.mem_of_mem_insert_of_ne hw hne)
        (fun hmem => hnew (Finset.mem_insert_of_mem hmem)) ?_
      obtain ⟨v, hv, hhit⟩ := hlive
      exact ⟨v, hv.mono (Finset.subset_insert _ _), hhit⟩

private theorem Runs.leftmost {visited : Finset κ} {entries : List (κ × ℓ)}
    {out : Found κ ℓ} (h : Runs succ hit visited entries out)
    {route : List (κ × ℓ)} (hroute : out.route = some route) :
    LeftmostRoute succ hit visited entries route := by
  induction h generalizing route with
  | nil => contradiction
  | seen mem _ ih =>
      exact .skip (fun ⟨_, hv, _⟩ => hv.1 mem) (ih hroute)
  | hit rest fresh found =>
      cases hroute
      exact .here rest fresh found
  | found rest fresh miss _ ih =>
      cases hroute
      exact .descend rest fresh miss (ih rfl)
  | @dead visited entry rest visited' _ fresh miss below _ _ ihTail =>
      have halone : Runs succ hit visited [entry] ⟨visited', none⟩ :=
        .dead fresh miss below (.nil visited')
      exact .skip (halone.not_live_of_fail rfl List.mem_cons_self)
        ((ihTail hroute).forget halone.subset fun _ =>
          halone.dead_of_visited rfl)

theorem Runs.route_iff {visited : Finset κ} {entries : List (κ × ℓ)}
    {out : Found κ ℓ} (h : Runs succ hit visited entries out)
    (route : List (κ × ℓ)) :
    out.route = some route ↔ LeftmostRoute succ hit visited entries route := by
  constructor
  · exact h.leftmost
  · intro hleft
    cases hout : out.route with
    | none =>
        obtain ⟨entry, hentry, hlive⟩ := hleft.live
        exact absurd hlive (h.not_live_of_fail hout hentry)
    | some route' => rw [(h.leftmost hout).unique hleft]

theorem Runs.route_isSome_iff {visited : Finset κ} {entries : List (κ × ℓ)}
    {out : Found κ ℓ} (h : Runs succ hit visited entries out) :
    out.route.isSome = true ↔
      ∃ entry ∈ entries, Live succ hit visited entry.1 := by
  cases hout : out.route with
  | none =>
      simp only [Option.isSome_none, Bool.false_eq_true, false_iff]
      rintro ⟨entry, hentry, hlive⟩
      exact h.not_live_of_fail hout hentry hlive
  | some route => simpa using (h.leftmost hout).live

/-! ## Marking in order -/

structure Marked (κ : Type*) where
  visited : Finset κ
  order : List κ

def Marks (before after : Marked κ) : Prop :=
  ∃ new, after.order = before.order ++ new ∧ new.Nodup ∧
    (∀ u ∈ new, u ∉ before.visited) ∧
    ∀ u, u ∈ after.visited ↔ u ∈ before.visited ∨ u ∈ new

omit [DecidableEq κ] in
theorem Marks.refl (marked : Marked κ) : Marks marked marked :=
  ⟨[], by simp⟩

theorem Marks.mark {marked : Marked κ} {u : κ} (h : u ∉ marked.visited) :
    Marks marked ⟨insert u marked.visited, marked.order ++ [u]⟩ := by
  refine ⟨[u], rfl, List.nodup_singleton u, ?_, ?_⟩
  · simpa using h
  · intro v
    simp [or_comm]

omit [DecidableEq κ] in
theorem Marks.trans {first second third : Marked κ} (h : Marks first second)
    (h' : Marks second third) : Marks first third := by
  obtain ⟨new, horder, hnodup, hfresh, hvisited⟩ := h
  obtain ⟨new', horder', hnodup', hfresh', hvisited'⟩ := h'
  have hnew : ∀ u ∈ new', u ∉ first.visited ∧ u ∉ new := by
    intro u hu
    have hunmarked := hfresh' u hu
    rw [hvisited] at hunmarked
    exact not_or.mp hunmarked
  refine ⟨new ++ new', by simp [horder, horder'], ?_, ?_, ?_⟩
  · rw [List.nodup_append']
    exact ⟨hnodup, hnodup', fun u hu hu' => (hnew u hu').2 hu⟩
  · intro u hu
    rcases List.mem_append.mp hu with hu | hu
    · exact hfresh u hu
    · exact (hnew u hu).1
  · intro u
    rw [hvisited', hvisited, List.mem_append, or_assoc]

end Pview.Foundation.DepthFirst
