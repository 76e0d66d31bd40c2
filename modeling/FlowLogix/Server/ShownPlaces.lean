/-
  Server/ShownPlaces.lean --- where a board shows a row, and who hears of a change.

  A client shows the rows that are neither deleted nor archived: a list on its board, a
  card in its list if the list is shown.  A row's place is the board, the parent and the
  position key it is shown with.

  A write is announced when every board whose rows have other places before and after it
  gets an event.  A row that is written over takes its place from one board to another,
  and a list takes the places of its cards along, so the boards to announce are those of
  the two places of the row that was written (`announced_put_iff`).
-/
import FlowLogix.Server.WebCalls

set_option autoImplicit false

namespace FlowLogix.Server

open FlowLogix.Foundation

variable {pg : Postgres} {c : SyncCollection} {db db' : Database pg} {board k : JsString}

/-! ## Places -/

/-- The row is neither deleted nor archived. -/
def isShown (row : Row pg c) : Bool :=
  !isSyncDeleted row && decide (row.columns.lookup "isArchived" ≠ some (.bool true))

/-- The parent a row is shown under. -/
def Row.shownParent (row : Row pg c) : Option JsString :=
  if isShown row then row.text (parentProperty c) else none

/-- Where a row is shown. -/
structure Place where
  board : JsString
  parent : JsString
  key : Option JsString
  deriving DecidableEq

/-- The place is on a board. -/
def Place.isOn (board : JsString) (place : Place) : Bool := place.board = board

namespace Database

/-- The board that shows the children of a parent. -/
def boardShowing (db : Database pg) : SyncCollection → JsString → Option JsString
  | .boards, _ => none
  | .lists, boardId => some boardId
  | .cards, listId => (db.find .lists listId).bind Row.shownParent

/-- The place of a row, among these tables. -/
def placeOf (db : Database pg) (row : Row pg c) : Option Place :=
  row.shownParent.bind fun parent =>
    (db.boardShowing c parent).map fun board => ⟨board, parent, row.text "positionIdx"⟩

/-- The place of the row with a primary key. -/
def place (db : Database pg) (c : SyncCollection) (k : JsString) : Option Place :=
  (db.find c k).bind db.placeOf

theorem place_of_find {row : Row pg c} (h : db.find c k = some row) :
    db.place c k = db.placeOf row := by
  rw [place, h, Option.bind_some]

theorem placeOf_eq_some {row : Row pg c} {p : Place} (h : db.placeOf row = some p) :
    isShown row = true ∧ row.text (parentProperty c) = some p.parent ∧
      db.boardShowing c p.parent = some p.board ∧ row.text "positionIdx" = p.key := by
  obtain ⟨parent, hparent, h⟩ := Option.bind_eq_some_iff.mp h
  obtain ⟨board, hboard, rfl⟩ := Option.map_eq_some_iff.mp h
  rw [Row.shownParent] at hparent
  split at hparent
  · exact ⟨by assumption, hparent, hboard, rfl⟩
  · cases hparent

/-- The board of a list is the one that shows its cards. -/
theorem boardShowing_cards (db : Database pg) (listId : JsString) :
    db.boardShowing .cards listId = (db.place .lists listId).map (·.board) := by
  rw [boardShowing, place]
  cases db.find .lists listId with
  | none => rfl
  | some list =>
      rw [Option.bind_some, Option.bind_some, placeOf]
      cases list.shownParent <;> rfl

/-- The rows a place is made of are above its own. -/
theorem placeOf_congr (h : ∀ c', c' ≠ c → db'.table c' = db.table c') (row : Row pg c) :
    db'.placeOf row = db.placeOf row := by
  have hshowing : db'.boardShowing c = db.boardShowing c := by
    funext parent
    cases c with
    | boards => rfl
    | lists => rfl
    | cards => rw [boardShowing, boardShowing, find, find, h .lists (by decide)]
  rw [placeOf, placeOf, hshowing]

/-- The place of a row on one board. -/
theorem filter_placeOf (db : Database pg) (row : Row pg c) (board : JsString) :
    (db.placeOf row).filter (Place.isOn board) = row.shownParent.bind fun parent =>
      ((db.boardShowing c parent).filter (· = board)).map fun board =>
        ⟨board, parent, row.text "positionIdx"⟩ := by
  rw [placeOf]
  cases row.shownParent with
  | none => rfl
  | some parent =>
      rw [Option.bind_some, Option.bind_some]
      cases db.boardShowing c parent with
      | none => rfl
      | some shown =>
          rw [Option.map_some, Option.filter_some, Option.filter_some, Place.isOn]
          split <;> rfl

end Database

/-! ## What a board shows -/

/-- The board shows the same rows at the same places. -/
def SameView (db db' : Database pg) (board : JsString) : Prop :=
  ∀ c k, (db.place c k).filter (Place.isOn board) = (db'.place c k).filter (Place.isOn board)

/-- Every board that does not show what it showed gets an event. -/
def Announced (db db' : Database pg) (events : List PendingBoardEvent) : Prop :=
  ∀ board, ¬ SameView db db' board → ∃ e ∈ events, e.boardId = board

theorem SameView.refl (db : Database pg) (board : JsString) : SameView db db board :=
  fun _ _ => rfl

theorem SameView.trans {db'' : Database pg} (h : SameView db db' board)
    (h' : SameView db' db'' board) : SameView db db'' board :=
  fun c k => (h c k).trans (h' c k)

theorem Announced.refl (db : Database pg) (events : List PendingBoardEvent) :
    Announced db db events :=
  fun board h => absurd (.refl db board) h

/-- What two writes announce. -/
theorem Announced.trans {db'' : Database pg} {events events' : List PendingBoardEvent}
    (h : Announced db db' events) (h' : Announced db' db'' events') :
    Announced db db'' (events ++ events') := by
  intro board hview
  by_cases hfirst : SameView db db' board
  · obtain ⟨e, he, hboard⟩ := h' board fun hsecond => hview (hfirst.trans hsecond)
    exact ⟨e, List.mem_append_right _ he, hboard⟩
  · obtain ⟨e, he, hboard⟩ := h board hfirst
    exact ⟨e, List.mem_append_left _ he, hboard⟩

/-- A row stays where it is on a board if it is not written and, for a card, its list
stays. -/
theorem filter_place_congr (hrow : db'.find c k = db.find c k)
    (hlists : c = .cards → ∀ l, (db.place .lists l).filter (Place.isOn board) =
      (db'.place .lists l).filter (Place.isOn board)) :
    (db.place c k).filter (Place.isOn board) = (db'.place c k).filter (Place.isOn board) := by
  rw [Database.place, Database.place, hrow]
  cases db.find c k with
  | none => rfl
  | some row =>
      rw [Option.bind_some, Option.bind_some, Database.filter_placeOf, Database.filter_placeOf]
      refine Option.bind_congr fun parent _ => ?_
      cases c with
      | boards => rfl
      | lists => rfl
      | cards =>
          have hfilter : ∀ p : Option Place, (p.map (·.board)).filter (· = board) =
              (p.filter (Place.isOn board)).map (·.board) := by
            intro p
            cases p with
            | none => rfl
            | some p =>
                rw [Option.map_some, Option.filter_some, Option.filter_some, Place.isOn]
                split <;> rfl
          rw [Database.boardShowing_cards, Database.boardShowing_cards, hfilter, hfilter,
            hlists rfl]

/-! ## Writing one row -/

/-- A board's view of a row that is written over decides for all rows. -/
theorem sameView_put (db : Database pg) (k : JsString) (row' : Row pg c) (board : JsString) :
    SameView db (db.put k row') board ↔
      (db.place c k).filter (Place.isOn board) = (db.placeOf row').filter (Place.isOn board) := by
  have hwritten : (db.put k row').place c k = db.placeOf row' := by
    have hfind : (db.put k row').find c k = some row' := by rw [Database.find_put, if_pos rfl]
    rw [Database.place_of_find hfind,
      Database.placeOf_congr fun c' hc => db.table_put_of_ne k row' hc]
  constructor
  · intro h
    rw [h c k, hwritten]
  · intro h
    -- the other rows of the table, and the tables other than the cards
    have hothers : ∀ c' j, c' ≠ .cards → (db.place c' j).filter (Place.isOn board) =
        ((db.put k row').place c' j).filter (Place.isOn board) := by
      intro c' j hcards
      by_cases hc : c' = c
      · subst hc
        by_cases hj : j = k
        · rw [hj, hwritten, h]
        · exact filter_place_congr (by rw [Database.find_put, if_neg hj]) fun heq =>
            absurd heq hcards
      · exact filter_place_congr (Database.find_put_of_ne _ _ _ _ hc) fun heq => absurd heq hcards
    intro c' j
    by_cases hcards : c' = .cards
    · subst hcards
      by_cases hc : .cards = c
      · subst hc
        by_cases hj : j = k
        · rw [hj, hwritten, h]
        · exact filter_place_congr (by rw [Database.find_put, if_neg hj]) fun _ l =>
            hothers .lists l (by decide)
      · exact filter_place_congr (Database.find_put_of_ne _ _ _ _ hc) fun _ l =>
          hothers .lists l (by decide)
    · exact hothers c' j hcards

/-- Two places agree on a board, unless they differ and one of them is there. -/
theorem filter_isOn_eq_iff (p p' : Option Place) (board : JsString) :
    p.filter (Place.isOn board) = p'.filter (Place.isOn board) ↔
      p = p' ∨ ∀ q, p = some q ∨ p' = some q → q.board ≠ board := by
  have hnone : ∀ p : Option Place, p.filter (Place.isOn board) = none ↔
      ∀ q, p = some q → q.board ≠ board := by
    intro p
    rw [Option.filter_eq_none_iff]
    simp [Place.isOn]
  constructor
  · intro h
    rw [or_iff_not_imp_left]
    intro hne q hq
    rintro rfl
    apply hne
    have hon : ∀ o : Option Place, o = some q → o.filter (Place.isOn q.board) = some q := by
      rintro o rfl
      rw [Option.filter_some, Place.isOn, decide_eq_true rfl, if_pos rfl]
    rcases hq with hq | hq
    · rw [hon p hq] at h
      rw [hq, (Option.filter_eq_some_iff.mp h.symm).1]
    · rw [hon p' hq] at h
      rw [hq, (Option.filter_eq_some_iff.mp h).1]
  · rintro (rfl | h)
    · rfl
    · rw [(hnone p).mpr fun q hq => h q (Or.inl hq), (hnone p').mpr fun q hq => h q (Or.inr hq)]

/-- Without an event, no row may change its place. -/
theorem announced_nil_iff : Announced db db' [] ↔ ∀ c k, db.place c k = db'.place c k := by
  constructor
  · intro h c k
    by_contra hne
    have hview : ∀ board, SameView db db' board := by
      intro board
      by_contra hview
      obtain ⟨e, he, -⟩ := h board hview
      cases he
    have hplaces := fun board =>
      ((filter_isOn_eq_iff _ _ board).mp (hview board c k)).resolve_left hne
    cases hp : db.place c k with
    | some p => exact hplaces p.board p (Or.inl hp) rfl
    | none =>
        cases hp' : db'.place c k with
        | some p => exact hplaces p.board p (Or.inr hp') rfl
        | none => exact hne (hp.trans hp'.symm)
  · intro h board hview
    refine absurd (fun c k => ?_) hview
    rw [h c k]

variable {events : List PendingBoardEvent}

/-- **A row that is written over is announced** when its place stays or the boards of
both places get an event. -/
theorem announced_put_iff {row' : Row pg c} :
    Announced db (db.put k row') events ↔ db.place c k = db.placeOf row' ∨
      ∀ p, db.place c k = some p ∨ db.placeOf row' = some p →
        ∃ e ∈ events, e.boardId = p.board := by
  constructor
  · intro h
    rw [or_iff_not_imp_left]
    intro hne p hp
    refine h p.board fun hview => ?_
    rw [sameView_put, filter_isOn_eq_iff] at hview
    exact (hview.resolve_left hne) p hp rfl
  · intro h board hview
    rw [sameView_put, filter_isOn_eq_iff, not_or] at hview
    obtain ⟨hne, hview⟩ := hview
    push Not at hview
    obtain ⟨p, hp, rfl⟩ := hview
    exact h.resolve_left hne p hp

/-- A card that is removed is announced on its board. -/
theorem announced_of_remove
    (h : ∀ p, db.place .cards k = some p → ∃ e ∈ events, e.boardId = p.board) :
    Announced db (db.remove .cards k) events := by
  intro board hview
  by_contra hnone
  refine hview fun c j => ?_
  have hlists : ∀ l, (db.place .lists l).filter (Place.isOn board) =
      ((db.remove .cards k).place .lists l).filter (Place.isOn board) :=
    fun l => filter_place_congr (Database.find_remove_of_ne _ _ _ (by decide)) nofun
  by_cases hc : c = .cards
  · subst hc
    by_cases hj : j = k
    · have hgone : (db.remove .cards k).place .cards j = none := by
        rw [Database.place, Database.find_remove, if_pos hj, Option.bind_none]
      rw [hgone, Option.filter_none, Option.filter_eq_none_iff]
      intro p hp hon
      rw [hj] at hp
      exact hnone (of_decide_eq_true hon ▸ h p hp)
    · exact filter_place_congr (by rw [Database.find_remove, if_neg hj]) fun _ => hlists
  · exact filter_place_congr (Database.find_remove_of_ne _ _ _ hc) fun heq => absurd heq hc

/-- A list that is removed with its cards is announced on its board. -/
theorem announced_of_removeList
    (h : ∀ p, db.place .lists k = some p → ∃ e ∈ events, e.boardId = p.board) :
    Announced db ((db.remove .lists k).removeCardsOf k) events := by
  intro board hview
  by_contra hnone
  have hlist : (db.place .lists k).filter (Place.isOn board) = none := by
    rw [Option.filter_eq_none_iff]
    intro p hp hon
    exact hnone (of_decide_eq_true hon ▸ h p hp)
  have hlists : ∀ l, (db.place .lists l).filter (Place.isOn board) =
      (((db.remove .lists k).removeCardsOf k).place .lists l).filter (Place.isOn board) := by
    intro l
    by_cases hl : l = k
    · rw [hl, hlist, Database.place, Database.find_removeCardsOf_of_ne _ _ _ (by decide),
        Database.find_remove, if_pos rfl, Option.bind_none, Option.filter_none]
    · exact filter_place_congr (by rw [Database.find_removeCardsOf_of_ne _ _ _ (by decide),
        Database.find_remove, if_neg hl]) nofun
  refine hview fun c j => ?_
  cases c with
  | boards =>
      refine filter_place_congr ?_ nofun
      rw [Database.find_removeCardsOf_of_ne _ _ _ (by decide),
        Database.find_remove_of_ne _ _ _ (by decide)]
  | lists => exact hlists j
  | cards =>
      have hfind : ((db.remove .lists k).removeCardsOf k).find .cards j =
          (db.find .cards j).filter fun card => card.text "listId" ≠ some k := by
        rw [Database.find_removeCardsOf,
          Database.find_remove_of_ne _ _ _ (by decide : SyncCollection.cards ≠ .lists)]
      cases hcard : db.find .cards j with
      | none =>
          rw [hcard, Option.filter_none] at hfind
          exact filter_place_congr (hfind.trans hcard.symm) fun _ => hlists
      | some card =>
          rw [hcard, Option.filter_some] at hfind
          by_cases hin : card.text "listId" = some k
          · -- a card of the list: the list was not on this board
            rw [if_neg (by simpa using hin)] at hfind
            rw [Database.place_of_find hcard, Database.place, hfind, Option.bind_none,
              Option.filter_none, Option.filter_eq_none_iff]
            intro p hp hon
            obtain ⟨-, hparent, hshowing, -⟩ := Database.placeOf_eq_some hp
            obtain rfl : k = p.parent := Option.some.inj (hin.symm.trans hparent)
            rw [Database.boardShowing_cards] at hshowing
            obtain ⟨q, hq, hboard⟩ := Option.map_eq_some_iff.mp hshowing
            rw [Option.filter_eq_none_iff] at hlist
            rw [Place.isOn, ← hboard] at hon
            exact hlist q hq hon
          · rw [if_pos (by simpa using hin)] at hfind
            exact filter_place_congr (hfind.trans hcard.symm) fun _ => hlists

end FlowLogix.Server
