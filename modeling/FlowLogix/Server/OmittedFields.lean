/-
  Server/OmittedFields.lean --- what a merge does to a field the client did not
  send.

  An omitted or dropped field reaches the merge as `undefined` with clock 0, so
  its register is `(0, "null")`.  The server keeps its own register exactly when
  that is not below: a positive stored clock, or clock 0 and a value whose text
  does not sort below `null`.  Strings, `false`, numbers and arrays do, and 0 is
  the clock of every field the CRUD services wrote.
-/
import FlowLogix.Server.Sanitize

set_option autoImplicit false

namespace FlowLogix.Server

open FlowLogix.Foundation

/-! ## Values that tie with `undefined` or beat it -/

/-- The values whose JSON text is not below `null`. -/
def keepsAgainstNull : Option Json → Bool
  | none | some .null | some (.bool true) | some (.obj _) => true
  | _ => false

theorem null_le_canonicalJson_iff (v : Option Json) :
    js "null" ≤ canonicalJson v ↔ keepsAgainstNull v = true := by
  cases v with
  | none => exact iff_of_true le_rfl rfl
  | some v =>
      rw [canonicalJson_some, null_le_stringify_iff]
      cases v with
      | bool b => cases b <;> simp [keepsAgainstNull]
      | _ => simp [keepsAgainstNull]

/-! ## Untouched fields -/

/-- A merge leaves a field alone: value and clock are the server's, the client is
not reported as its winner, and visiting it raises neither flag. -/
structure Untouched (server client : RecordState Clock) (field : String) : Prop where
  value : readField (mergeServerRecord server client).merged.fields field =
    readField server.fields field
  clock : readClock (mergeServerRecord server client).merged.clocks field =
    readClock server.clocks field
  report : (mergeServerRecord server client).report.lookup field ≠ some .client
  serverChanged : ∀ acc, (mergeField server client acc field).serverChanged = acc.serverChanged
  clientAccepted : ∀ acc,
    (mergeField server client acc field).clientAccepted = acc.clientAccepted

/-- A field of the loop is untouched exactly when the client does not win it. -/
theorem untouched_iff {server client : RecordState Clock} {field : String}
    (hmem : field ∈ server.fields ∨ field ∈ client.fields) :
    Untouched server client field ↔ ¬ ClientWins server client field := by
  have hvalue := lookup_merged_fields server client field
  have hclock := lookup_merged_clocks server client field
  have hreport := lookup_report server client field
  rw [if_pos hmem] at hvalue hclock hreport
  constructor
  · intro h hwins
    rw [(pickField_eq_client_iff server client field).mpr hwins] at hreport
    exact h.report hreport
  · intro h
    refine ⟨?_, ?_, ?_, ?_, ?_⟩
    · rw [readField_of_lookup hvalue, mergedValue, if_neg h]
    · rw [readClock_of_lookup hclock, mergedClock, if_neg h]
    · rw [hreport]
      exact fun heq => h ((pickField_eq_client_iff server client field).mp (Option.some.inj heq))
    · intro acc
      rw [mergeField_of_not_wins h]
    · intro acc
      rw [mergeField_of_not_wins h]

variable {pg : Postgres} {c : SyncCollection}

/-- **Omitted fields.** A synced field that a change omits, or that sanitizing
drops, is untouched exactly when the row's clock for it is positive, or is 0 and
the row's value does not sort below `null`. -/
theorem omitted_untouched_iff (db : Database pg) (orgId : JsString) (row : Row pg c)
    (change : SyncChangeDto) {field : String} (hf : field ∈ syncFields c)
    (homitted : accepted db orgId change field = none) :
    Untouched (serverState row) (clientState db orgId (syncFields c) change) field ↔
      0 < readClock row.syncClocks field ∨
        (readClock row.syncClocks field = 0 ∧
          keepsAgainstNull (row.columns.lookup field) = true) := by
  rw [untouched_iff ((mem_fields_iff db orgId row change).mpr hf), ClientWins,
    stamp_serverState row hf, stamp_clientState db orgId change hf, sentStamp, homitted, not_lt,
    Row.stamp, Prod.Lex.toLex_le_toLex, null_le_canonicalJson_iff]
  exact or_congr_right (and_congr_left' eq_comm)

/-! ### A card the web created -/

/-- A content-only change. -/
def titleChange : SyncChangeDto where
  id := Sample.cardId
  fields := Dict.ofList [("title", .str (js "Shipped"))]
  clocks := Dict.ofList [("title", some 5)]
  nodeId := js "device"
  deletedAt := none

/-- The change as it is merged into the card. -/
def titleClient : RecordState Clock :=
  clientState Sample.nothing Sample.orgId (syncFields .cards) titleChange

/-- The content-only change leaves the description of the created card alone: its
clock is 0 and its value is `null`. -/
theorem createdCard_description_untouched :
    Untouched (serverState Sample.card) titleClient "description" :=
  (omitted_untouched_iff Sample.nothing Sample.orgId Sample.card titleChange (by decide)
    (by decide)).mpr (Or.inr (by decide))

/-- It does not leave the position alone: the merge hands the field to the
client, with no value. -/
theorem createdCard_position_touched :
    "positionIdx" ∉ titleChange.fields ∧
      (mergeServerRecord (serverState Sample.card) titleClient).report.lookup "positionIdx" =
        some .client ∧
      readField (mergeServerRecord (serverState Sample.card) titleClient).merged.fields
        "positionIdx" = none ∧
      ¬ Untouched (serverState Sample.card) titleClient "positionIdx" :=
  ⟨by decide, by decide, by decide, fun h => h.report (by decide)⟩

end FlowLogix.Server
