/-
  Foundation/Latest.lean --- maps of the greatest value seen per key.

  `bump` writes a key only when it is absent or the new value exceeds the one it
  holds, so a dictionary built by bumps holds, for every key, the greatest value
  it was bumped to.  `Tracks` says this against the sets of values seen: one bump
  adds one value, and bumping by all entries of a second dictionary adds the
  values that one has seen (`tracks_bumpAll`).
-/
import FlowLogix.Foundation.Dict

set_option autoImplicit false

namespace FlowLogix.Foundation.Dict

variable {κ K : Type} [DecidableEq κ] [LinearOrder K]

/-- Write `v` under `k` unless `k` already holds a value that is at least `v`. -/
def bump (d : Dict κ K) (k : κ) (v : K) : Dict κ K :=
  match d.lookup k with
  | none => d.insert k v
  | some current => if v > current then d.insert k v else d

/-- Bump by every entry of a second dictionary. -/
def bumpAll (d source : Dict κ K) : Dict κ K :=
  source.entries.foldl (fun d e => d.bump e.1 e.2) d

theorem lookup_bump_of_ne (d : Dict κ K) {k j : κ} (v : K) (h : j ≠ k) :
    (d.bump k v).lookup j = d.lookup j := by
  unfold bump
  split
  · rw [lookup_insert_eq, if_neg h]
  · split
    · rw [lookup_insert_eq, if_neg h]
    · rfl

/-- A value that does not exceed the one held changes nothing. -/
theorem bump_of_le {d : Dict κ K} {k : κ} {v current : K} (hk : d.lookup k = some current)
    (hle : v ≤ current) : d.bump k v = d := by
  simp [bump, hk, hle]

/-- `d` holds, under every key, the greatest of the values seen under it. -/
def Tracks (d : Dict κ K) (seen : κ → Set K) : Prop :=
  ∀ k, (d.lookup k = none ∧ seen k = ∅) ∨ ∃ v, d.lookup k = some v ∧ IsGreatest (seen k) v

variable {d e : Dict κ K} {seen seen' : κ → Set K}

theorem tracks_empty : Tracks (∅ : Dict κ K) fun _ => ∅ := by
  intro k
  left
  exact ⟨AList.lookup_empty k, rfl⟩

theorem Tracks.of_eq (h : Tracks d seen) (heq : ∀ k, seen' k = seen k) : Tracks d seen' := by
  rwa [funext heq]

/-- What a dictionary holds is exactly the greatest value seen. -/
theorem Tracks.lookup_eq_some_iff (h : Tracks d seen) (k : κ) (v : K) :
    d.lookup k = some v ↔ IsGreatest (seen k) v := by
  rcases h k with ⟨hnone, hempty⟩ | ⟨w, hsome, hgreatest⟩
  · simp [hnone, hempty, IsGreatest]
  · rw [hsome, Option.some_inj]
    constructor
    · rintro rfl
      exact hgreatest
    · exact hgreatest.unique

/-- Bumping one key adds one value to what has been seen. -/
theorem Tracks.bump (h : Tracks d seen) (k : κ) (v : K) :
    Tracks (d.bump k v) fun j => if j = k then insert v (seen j) else seen j := by
  intro j
  beta_reduce
  rcases eq_or_ne j k with rfl | hne
  · right
    simp only [if_true]
    rcases h j with ⟨hnone, hempty⟩ | ⟨w, hsome, hgreatest⟩
    · refine ⟨v, ?_, ?_⟩
      · simp [Dict.bump, hnone]
      · simp [hempty]
    · have hmax := isGreatest_singleton.union hgreatest (a := v)
      rw [Set.singleton_union] at hmax
      refine ⟨max v w, ?_, hmax⟩
      rcases lt_or_ge w v with hlt | hge
      · simp [Dict.bump, hsome, hlt, hlt.le]
      · rw [bump_of_le hsome hge, hsome, max_eq_right hge]
  · rw [if_neg hne, lookup_bump_of_ne d v hne]
    exact h j

/-- Bumping by a list of entries adds their values. -/
theorem Tracks.foldl_bump (entries : List (Sigma fun _ : κ => K)) (h : Tracks d seen) :
    Tracks (entries.foldl (fun d e => d.bump e.1 e.2) d)
      fun k => seen k ∪ {v | ⟨k, v⟩ ∈ entries} := by
  induction entries generalizing d seen with
  | nil => simpa using h
  | cons entry rest ih =>
      rw [List.foldl_cons]
      convert ih (h.bump entry.1 entry.2) using 2 with k
      ext v
      rcases eq_or_ne k entry.1 with rfl | hne
      · simp only [if_pos, Set.mem_union, Set.mem_insert_iff, Set.mem_ofPred_eq, List.mem_cons]
        have heq : (⟨entry.1, v⟩ : Sigma fun _ : κ => K) = entry ↔ v = entry.2 := by
          obtain ⟨key, value⟩ := entry
          simp
        rw [heq]
        tauto
      · have hentry : (⟨k, v⟩ : Sigma fun _ : κ => K) ≠ entry :=
          fun heq => hne (congrArg Sigma.fst heq)
        simp [hne, hentry]

/-- Bumping by all of a second dictionary joins what the two have seen. -/
theorem Tracks.bumpAll (hd : Tracks d seen) (he : Tracks e seen') :
    Tracks (d.bumpAll e) fun k => seen k ∪ seen' k := by
  have hfold := hd.foldl_bump e.entries
  intro k
  -- of the values seen by `e` under `k`, its entries keep the greatest
  have hentry : ∀ v, (⟨k, v⟩ : Sigma fun _ : κ => K) ∈ e.entries ↔ IsGreatest (seen' k) v := by
    intro v
    rw [← he.lookup_eq_some_iff, ← AList.mem_lookup_iff, Option.mem_def]
  rcases hfold k with ⟨hnone, hempty⟩ | ⟨v, hsome, hmem, hupper⟩
  · left
    obtain ⟨hseen, hentries⟩ := Set.union_empty_iff.mp hempty
    refine ⟨hnone, Set.union_empty_iff.mpr ⟨hseen, ?_⟩⟩
    rcases he k with ⟨-, hempty'⟩ | ⟨w, -, hgreatest⟩
    · exact hempty'
    · exact absurd ((hentry w).mpr hgreatest) (Set.eq_empty_iff_forall_notMem.mp hentries w)
  · right
    refine ⟨v, hsome, ?_, ?_⟩
    · rcases hmem with hmem | hmem
      · exact Or.inl hmem
      · exact Or.inr ((hentry v).mp hmem).1
    · rintro w (hw | hw)
      · exact hupper (Or.inl hw)
      · rcases he k with ⟨-, hempty'⟩ | ⟨u, -, hgreatest⟩
        · exact absurd hw (Set.eq_empty_iff_forall_notMem.mp hempty' w)
        · exact (hgreatest.2 hw).trans (hupper (Or.inr ((hentry u).mpr hgreatest)))

/-- Bumping a dictionary by its own entries changes nothing. -/
theorem bumpAll_self (d : Dict κ K) : d.bumpAll d = d := by
  have hrest : ∀ entries : List (Sigma fun _ : κ => K), (∀ e ∈ entries, e ∈ d.entries) →
      entries.foldl (fun d e => d.bump e.1 e.2) d = d := by
    intro entries
    induction entries with
    | nil => exact fun _ => rfl
    | cons entry rest ih =>
        intro hmem
        have hentry := AList.mem_lookup_iff.mpr (hmem entry List.mem_cons_self)
        rw [List.foldl_cons, bump_of_le hentry le_rfl]
        exact ih fun e he => hmem e (List.mem_cons_of_mem entry he)
  exact hrest d.entries fun e he => he

end FlowLogix.Foundation.Dict
