/-
  Ordering/AcceptedAlphabet.lean --- the constructor of the indexer
  (backend/src/common/ordering/fractional-indexer.ts).

  The constructor takes any ascending alphabet of two or more characters and a seed
  above its lowest one; `FractionalIndexer` is what it returns.  Over every alphabet it
  accepts that is free of surrogates, `getIntermediateKey` returns a key between its
  bounds wherever there are bounds to be between, and throws everywhere else.
-/
import FlowLogix.Ordering.Midpoint

set_option autoImplicit false

namespace FlowLogix.Ordering

open FlowLogix.Foundation

namespace FractionalIndexer

/-! ## The constructor -/

/-- The loop of the constructor over the characters that are left; `seen` holds the
keys of `rank`, in the order they were set. -/
def scanAlphabet (seen : JsString) : JsString → Except Message Unit
  | [] => .ok ()
  | char :: rest =>
      if char ∈ seen then
        .error (prefixed (js "duplicate character \"" ++ [char] ++ js "\" in alphabet"))
      else
        match seen.getLast? with
        | none => scanAlphabet (seen ++ [char]) rest
        | some before =>
            if char ≤ before then
              .error (prefixed (js "alphabet must be sorted ascending so that string order " ++
                js "matches digit order (offending pair \"" ++ [before, char] ++ js "\")"))
            else scanAlphabet (seen ++ [char]) rest

/-- `rank.has('M') ? 'M' : alphabet[Math.floor(alphabet.length / 2)]`. -/
def defaultSeed (alphabet : JsString) : CodeUnit :=
  if 77 ∈ alphabet then 77 else alphabet.getD (alphabet.length / 2) 0

end FractionalIndexer

open FractionalIndexer

theorem scanAlphabet_eq_ok {alphabet seen : JsString} (hseen : seen.Pairwise (· < ·)) :
    scanAlphabet seen alphabet = .ok () ↔ (seen ++ alphabet).Pairwise (· < ·) := by
  induction alphabet generalizing seen with
  | nil => simpa [scanAlphabet] using hseen
  | cons char rest ih =>
      -- the character extends what was seen exactly where it is above the last one
      have hextend : (seen ++ [char]).Pairwise (· < ·) ↔ ∀ u ∈ seen, u < char := by
        simp [List.pairwise_append, hseen]
      have hrest := @ih (seen ++ [char])
      rw [List.append_assoc, List.singleton_append] at hrest
      have hbefore : (seen ++ char :: rest).Pairwise (· < ·) → ∀ u ∈ seen, u < char := by
        intro h u hu
        exact (List.pairwise_append.mp h).2.2 u hu char List.mem_cons_self
      rw [scanAlphabet]
      split
      · rename_i hmem
        refine iff_of_false nofun fun h => ?_
        exact lt_irrefl char (hbefore h char hmem)
      · cases hlast : seen.getLast? with
        | none =>
            obtain rfl := List.getLast?_eq_none_iff.mp hlast
            exact hrest (List.pairwise_singleton _ _)
        | some before =>
            obtain ⟨init, rfl⟩ := List.getLast?_eq_some_iff.mp hlast
            simp only
            split
            · rename_i hle
              refine iff_of_false nofun fun h => ?_
              exact (hbefore h before (by simp)).not_ge hle
            · rename_i hlt
              apply hrest
              rw [hextend]
              intro u hu
              rcases List.mem_append.mp hu with hu | hu
              · have hbelow := (List.pairwise_append.mp hseen).2.2 u hu before (by simp)
                exact hbelow.trans (not_le.mp hlt)
              · obtain rfl := List.mem_singleton.mp hu
                exact not_le.mp hlt

namespace FractionalIndexer

/-- `new FractionalIndexer(alphabet, seed)`; `none` is an argument left out. -/
def construct (alphabet : Option JsString) (seed : Option JsString) :
    Except Message FractionalIndexer :=
  let alphabet := alphabet.getD base62Alphabet
  if hlength : alphabet.length < 2 then
    .error (prefixed (js "alphabet must have at least 2 characters"))
  else
    match hscan : scanAlphabet [] alphabet with
    | .error message => .error message
    | .ok () =>
        let resolvedSeed := seed.getD [defaultSeed alphabet]
        match resolvedSeed with
        | [u] =>
            if hmem : u ∈ alphabet then
              if hzero : alphabet.head? = some u then
                .error (prefixed (js "seed must not be the lowest alphabet character"))
              else
                .ok
                  { alphabet := alphabet
                    seed := u
                    two_le_length := not_lt.mp hlength
                    sorted := (scanAlphabet_eq_ok List.Pairwise.nil).mp hscan
                    seed_mem := hmem
                    seed_ne_zero := hzero }
            else
              .error (prefixed (js "seed \"" ++ [u] ++ js "\" must be a single alphabet character"))
        | text =>
            .error (prefixed (js "seed \"" ++ text ++ js "\" must be a single alphabet character"))

/-- The indexer has the alphabet it was given. -/
theorem alphabet_of_construct {alphabet seed : Option JsString} {ix : FractionalIndexer}
    (h : construct alphabet seed = .ok ix) : ix.alphabet = alphabet.getD base62Alphabet := by
  unfold construct at h
  dsimp only at h
  split at h
  · cases h
  · split at h
    · cases h
    · split at h
      · split at h
        · split at h
          · cases h
          · obtain rfl := Except.ok.inj h
            rfl
        · cases h
      · cases h

/-! ## Room between two keys -/

/-- The alphabet holds half of a surrogate pair. -/
def hasSurrogate (alphabet : JsString) : Bool :=
  alphabet.any fun u => isHighSurrogate u || isLowSurrogate u

theorem plain_of_construct {alphabet seed : Option JsString} {ix : FractionalIndexer}
    (h : construct alphabet seed = .ok ix)
    (hplain : hasSurrogate (alphabet.getD base62Alphabet) = false) : ix.Plain := by
  intro u hu
  rw [alphabet_of_construct h] at hu
  have hnone := List.any_eq_false.mp hplain u hu
  simp only [Bool.or_eq_true, not_or, Bool.not_eq_true] at hnone
  exact hnone.1

/-- **There is always room between two keys**: whatever the alphabet, bounds in order
get a valid key strictly between them, and all others get an error. -/
theorem room_between {alphabet seed : Option JsString} {ix : FractionalIndexer}
    (h : construct alphabet seed = .ok ix)
    (hplain : hasSurrogate (alphabet.getD base62Alphabet) = false) (prev next : Option JsString) :
    (ix.InOrder prev next → ∃ key, ix.getIntermediateKey prev next = .ok key ∧
      ix.isValidKey key = true ∧ (∀ p, prev = some p → p < key) ∧
        ∀ n, next = some n → key < n) ∧
    (¬ ix.InOrder prev next → ∃ message, ix.getIntermediateKey prev next = .error message) := by
  constructor
  · intro horder
    obtain ⟨key, hok, hkey, habove, hbelow⟩ := horder.getIntermediateKey
    exact ⟨key, hok, hkey.isValidKey (plain_of_construct h hplain), habove, hbelow⟩
  · intro hnone
    cases hresult : ix.getIntermediateKey prev next with
    | error message => exact ⟨message, rfl⟩
    | ok key =>
        have horder := inOrder_of_getIntermediateKey hresult
        contradiction

/-- The indexer the server uses is `new FractionalIndexer()`. -/
theorem construct_base62 : construct none none = .ok base62 := rfl

/-- Between `b` and `c`, which have no character between them. -/
theorem room_between_adjacent :
    ∃ key, base62.getIntermediateKey (some (js "b")) (some (js "c")) = .ok key ∧
      base62.isValidKey key = true ∧ js "b" < key ∧ key < js "c" := by
  have hroom := room_between construct_base62 (by decide) (some (js "b")) (some (js "c"))
  obtain ⟨key, hok, hvalid, habove, hbelow⟩ := hroom.1
    { valid_prev := by rintro _ ⟨⟩; decide
      valid_next := by rintro _ ⟨⟩; decide
      lt := by rintro _ _ ⟨⟩ ⟨⟩; decide }
  exact ⟨key, hok, hvalid, habove _ rfl, hbelow _ rfl⟩

end FractionalIndexer

end FlowLogix.Ordering
