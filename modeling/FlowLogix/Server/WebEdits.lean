/-
  Server/WebEdits.lean --- a web edit against clients that made no newer edit.

  The web writers change values and leave the field clocks alone, so after a web
  edit the row holds the new value under the clock of the old one.  A client
  that still has the old value sends it under that same clock, and the merge
  then compares the two texts: the edit survives the changes whose clock is
  older or whose text is not greater, and only those.
-/
import FlowLogix.Server.SyncRun
import FlowLogix.Server.WebEffects

set_option autoImplicit false

namespace FlowLogix.Server

open FlowLogix.Foundation

variable {pg : Postgres} {orgId : JsString} {c : SyncCollection} {k : JsString}

/-- The effective clock of a field of a change: no clock counts as 0. -/
def effectiveClock (change : SyncChangeDto) (field : String) : Clock :=
  (sentClock change field).getD 0

theorem sentStamp_of_accepted {db : Database pg} {change : SyncChangeDto} {field : String}
    {v : Json} (hv : accepted db orgId change field = some v) :
    sentStamp db orgId change field = toLex (effectiveClock change field, stringify v) := by
  rw [sentStamp, hv]
  rfl

/-- Every change of the request that names the record sends the field, if at all,
with a clock of at most `bound`. -/
def NoNewerEdit (orgId : JsString) (c : SyncCollection) (k : JsString) (field : String)
    (bound : Clock) (step : SyncStep pg orgId) : Prop :=
  ∀ change, Names pg c k step.req change → ∀ w,
    accepted step.before.db orgId change field = some w → effectiveClock change field ≤ bound

/-- Every change of the request that names the record sends the field, if at all,
with a clock below `clock` or a text of at most `v`'s. -/
def Yields (orgId : JsString) (c : SyncCollection) (k : JsString) (field : String)
    (clock : Clock) (v : Json) (step : SyncStep pg orgId) : Prop :=
  ∀ change, Names pg c k step.req change → ∀ w,
    accepted step.before.db orgId change field = some w →
      effectiveClock change field < clock ∨ stringify w ≤ stringify v

variable {field : String} {v : Json} {clock : Clock}

/-- A request that yields keeps the value, at its clock or a later one. -/
theorem Yields.holdsRow {step : SyncStep pg orgId} (hf : field ∈ syncFields c)
    (hold : NoNewerEdit orgId c k field clock step)
    (hyields : Yields orgId c k field clock v step)
    (h : HoldsRow orgId c k (fun r => r.columns.lookup field = some v ∧
      clock ≤ readClock r.syncClocks field) step.before) :
    HoldsRow orgId c k (fun r => r.columns.lookup field = some v ∧
      clock ≤ readClock r.syncClocks field) step.result.server := by
  refine step.holdsRow _ (fun change hnames r r' hr heffect => ?_) h
  obtain ⟨hvalue, hclock⟩ := hr
  by_cases hwins : r.stamp field < sentStamp step.before.db orgId change field
  · cases hv : accepted step.before.db orgId change field with
    | none =>
        rw [heffect.wonNothing field hf hwins hv, heffect.wonClock field hf hwins]
        exact ⟨hvalue, hclock.trans (Prod.Lex.monotone_fst_ofLex hwins.le)⟩
    | some w =>
        exfalso
        have hbound := hold change hnames w hv
        rw [sentStamp_of_accepted hv, Row.stamp, hvalue, Prod.Lex.toLex_lt_toLex] at hwins
        rcases hwins with hlt | ⟨heq, htext⟩
        · exact (hlt.trans_le hbound).not_ge hclock
        · rcases hyields change hnames w hv with hlt | hle
          · exact (hlt.trans_le hclock).ne' heq
          · exact htext.not_ge hle
  · obtain ⟨hvalue', hclock'⟩ := heffect.kept field hf hwins
    rw [hvalue', hclock']
    exact ⟨hvalue, hclock⟩

/-- Between the value at its clock and every later register with that clock. -/
def Between (field : String) (clock : Clock) (v : Json) (r : Row pg c) : Prop :=
  toLex (clock, stringify v) ≤ r.stamp field ∧ readClock r.syncClocks field ≤ clock

theorem Between.merge {step : SyncStep pg orgId} (hf : field ∈ syncFields c) (h0 : 0 ≤ clock)
    (hold : NoNewerEdit orgId c k field clock step)
    (hstores : StoresAsSent orgId c k field step) {change : SyncChangeDto}
    (hnames : Names pg c k step.req change) {r r' : Row pg c} (hr : Between field clock v r)
    (heffect : MergeEffect step.before.db orgId change r r') : Between field clock v r' := by
  refine ⟨hr.1.trans (heffect.stamp_le hf (hstores change hnames)),
    heffect.clock_le hf hr.2 ?_⟩
  cases hv : accepted step.before.db orgId change field with
  | none =>
      rw [sentStamp, hv]
      exact h0
  | some w =>
      rw [sentStamp_of_accepted hv]
      exact hold change hnames w hv

/-- A request after which the value is still there yields. -/
theorem yields_of_holdsRow {step : SyncStep pg orgId} (hf : field ∈ syncFields c)
    (h0 : 0 ≤ clock) (hold : NoNewerEdit orgId c k field clock step)
    (hstores : StoresAsSent orgId c k field step)
    (h : HoldsRow orgId c k (Between field clock v) step.before)
    (hafter : HoldsRow orgId c k (fun r => r.columns.lookup field = some v)
      step.result.server) : Yields orgId c k field clock v step := by
  intro change hnames w hw
  obtain ⟨-, row, hrow, hbetween, hsent⟩ := step.holdsRow_established (Between field clock v)
    (fun r => sentStamp step.before.db orgId change field ≤ r.stamp field)
    (fun change hnames r r' hr he => Between.merge hf h0 hold hstores hnames hr he) hnames
    (fun r r' _ he => by
      rw [he.stamp_of_accepted hf (hstores change hnames) hw]
      exact le_sup_right)
    (fun change hnames r r' hr he => hr.trans (he.stamp_le hf (hstores change hnames))) h
  obtain ⟨-, row', hrow', hvalue⟩ := hafter
  obtain rfl : row = row' := Option.some.inj (hrow.symm.trans hrow')
  rw [sentStamp_of_accepted hw, Row.stamp, hvalue, Prod.Lex.toLex_le_toLex] at hsent
  rcases hsent with hlt | ⟨-, htext⟩
  · exact Or.inl (hlt.trans_le hbetween.2)
  · exact Or.inr htext

/-- **A web edit against older edits.** A web write leaves a value in a synced
field of a record.  Along every run of later requests whose changes carry, for
that field, no newer clock than the row had before the write: while each request
yields, the row still holds the value after each of them; and, for a
non-negative clock and values the column stores as sent, only then. -/
theorem webWrite_survives_iff {db db' : Database pg} (hwrite : WebWrite orgId db db')
    {row : Row pg c} (hrow : db.find c k = some row) (howner : db.owner c k = some orgId)
    (hf : field ∈ syncFields c)
    (hv : (db'.find c k).bind (·.columns.lookup field) = some v)
    {server : ServerState pg} (hserver : server.db = db')
    {steps : List (SyncStep pg orgId)} (hrun : IsRun server steps)
    (hold : ∀ step ∈ steps, NoNewerEdit orgId c k field (readClock row.syncClocks field) step) :
    ((∀ step ∈ steps, Yields orgId c k field (readClock row.syncClocks field) v step) →
        ∀ step ∈ steps, HoldsRow orgId c k (fun r => r.columns.lookup field = some v)
          step.result.server) ∧
      (0 ≤ readClock row.syncClocks field →
        (∀ step ∈ steps, StoresAsSent orgId c k field step) →
        (∀ step ∈ steps, HoldsRow orgId c k (fun r => r.columns.lookup field = some v)
          step.result.server) →
        ∀ step ∈ steps, Yields orgId c k field (readClock row.syncClocks field) v step) := by
  obtain ⟨row', hrow', hclocks, -⟩ := hwrite.effect.rows c k row hrow
  have howner' := hwrite.effect.owner c k orgId howner
  rw [hrow', Option.bind_some] at hv
  subst hserver
  constructor
  · intro hyields step hmem
    obtain ⟨hown, r, hr, hvalue, -⟩ := (hrun.invariant _
      (fun s hs h => (hyields s hs).holdsRow hf (hold s hs) h)
      ⟨howner', row', hrow', hv, hclocks ▸ le_rfl⟩ step hmem).2
    exact ⟨hown, r, hr, hvalue⟩
  · intro h0 hstores hafter step hmem
    have hbetween := (hrun.invariant
      (HoldsRow orgId c k (Between field (readClock row.syncClocks field) v))
      (fun s hs h => s.holdsRow _ (fun change hnames r r' hr he =>
        Between.merge hf h0 (hold s hs) (hstores s hs) hnames hr he) h)
      ⟨howner', row', hrow', by rw [Row.stamp, hv, hclocks]; exact le_rfl,
        hclocks ▸ le_rfl⟩ step hmem).1
    exact yields_of_holdsRow hf h0 (hold step hmem) (hstores step hmem) hbetween
      (hafter step hmem)

/-! ### A renamed card -/

namespace Renamed

/-- The card, its title written at 5. -/
def card : Row Postgres.plain .cards :=
  { Sample.card with syncClocks := Dict.ofList [("title", 5)] }

def before : Database Postgres.plain := Sample.database (Dict.ofList [(Sample.cardId, card)])

/-- A web request that renames the card. -/
def rename : UpdateCardDto where
  content := Dict.ofList [("title", .str (js "Plan"))]
  content_keys := by decide
  listId := none
  positionIdx := none
  beforeCardId := none
  afterCardId := none

/-- The tables after the web request. -/
def after : Database Postgres.plain :=
  okOr (CardsService.update before Sample.cardId Sample.orgId rename) before

/-- A client that only edited the description sends the title it knows, under the
given clock. -/
def resend (clock : Clock) : SyncRequestDto where
  collection := .cards
  sinceCheckpoint := 0
  changes := [{
    id := Sample.cardId
    fields := Dict.ofList [("title", .str (js "Ship")), ("description", .str (js "soon"))]
    clocks := Dict.ofList [("title", some clock), ("description", some 9)]
    nodeId := js "device"
    deletedAt := none }]

def server : ServerState Postgres.plain := { db := after, lastMicros := 0 }

/-- The resend of a client whose title is older. -/
def older : SyncStep Postgres.plain Sample.orgId :=
  .of server 1 (resend 4) (by decide +kernel)

/-- The resend of a client whose title is as old as the row's was. -/
def tied : SyncStep Postgres.plain Sample.orgId :=
  .of server 1 (resend 5) (by decide +kernel)

end Renamed

/-- The edit survives the older title. -/
theorem rename_survives_older :
    HoldsRow Sample.orgId .cards Sample.cardId
      (fun r => r.columns.lookup "title" = some (.str (js "Plan")))
      Renamed.older.result.server := by
  have hwrite : WebWrite Sample.orgId Renamed.before Renamed.after :=
    .card Sample.cardId Renamed.rename (eq_ok_okOr (by decide +kernel))
  have hrow : Renamed.before.find .cards Sample.cardId = some Renamed.card := rfl
  have hrun : IsRun Renamed.server [Renamed.older] := ⟨rfl, trivial⟩
  refine (webWrite_survives_iff hwrite hrow (by decide +kernel) (by decide)
    (by decide +kernel) rfl hrun ?_).1 ?_ Renamed.older (List.mem_singleton_self _)
  all_goals
    intro step hmem change hnames w _
    obtain rfl := List.mem_singleton.mp hmem
    obtain rfl := List.mem_singleton.mp hnames.2.1
  · decide +kernel
  · exact Or.inl (by decide +kernel)

/-- The clock has not moved since the row had its old title, and the old title
comes back. -/
theorem rename_reverted :
    CardsService.update Renamed.before Sample.cardId Sample.orgId Renamed.rename =
        .ok Renamed.after ∧
      (Renamed.after.find .cards Sample.cardId).bind (·.columns.lookup "title") =
        some (.str (js "Plan")) ∧
      (∀ change ∈ Renamed.tied.req.changes,
        effectiveClock change "title" ≤ readClock Renamed.card.syncClocks "title") ∧
      Renamed.tied.before.db = Renamed.after ∧
      (Renamed.tied.result.server.db.find .cards Sample.cardId).bind
        (·.columns.lookup "title") = some (.str (js "Ship")) :=
  ⟨eq_ok_okOr (by decide +kernel), by decide +kernel, by decide +kernel, rfl,
    by decide +kernel⟩

end FlowLogix.Server
