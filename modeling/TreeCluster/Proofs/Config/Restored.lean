import TreeCluster.Config.Json
import TreeCluster.Proofs.Json.Omitted

/-! # Settings read back from their JSON text

All settings may be left out of a text, one by one or in whole sections, and have their default
values then.  Each section is laid out in its settings, and the whole in its sections; so settings
are read back from their text without any of them that have their default values
(`ClusterConfig.restores`).

Settings that have been read are checked against their bounds, and the first bound that is
violated is reported (`ClusterConfig.validate_eq`). -/

namespace TreeCluster

open Json Text

/-! ### The sections -/

/-- The settings of a tree. -/
def TreeConfig.schema : Schema TreeConfig.format where
  parts := [.of "fan_out" fanOut (fun c fanOut => { c with fanOut })
    (restores_uint64 "usize" _) fun _ => rfl]
  fields := rfl
  distinct := by decide
  apart := by simp [Part.of]
  whole := by simp [Part.of]

/-- The settings of a looper. -/
def LooperConfig.schema : Schema LooperConfig.format where
  parts := [.of "mailbox_capacity" mailboxCapacity
    (fun c mailboxCapacity => { c with mailboxCapacity }) (restores_uint64 "usize" _) fun _ => rfl]
  fields := rfl
  distinct := by decide
  apart := by simp [Part.of]
  whole := by simp [Part.of]

/-- The settings for dialling. -/
def ReconnectConfig.schema : Schema ReconnectConfig.format where
  parts := [
    .of "max_retries" maxRetries (fun c maxRetries => { c with maxRetries })
      (restores_uint32 _) fun _ => rfl,
    .of "base_delay_ms" baseDelayMs (fun c baseDelayMs => { c with baseDelayMs })
      (restores_uint64 "u64" _) fun _ => rfl,
    .of "max_delay_ms" maxDelayMs (fun c maxDelayMs => { c with maxDelayMs })
      (restores_uint64 "u64" _) fun _ => rfl]
  fields := rfl
  distinct := by decide
  apart := by simp [Part.of]
  whole := by simp [Part.of]

/-- The settings of the sockets. -/
def TransportConfig.schema : Schema TransportConfig.format where
  parts := [
    .of "max_frame_bytes" maxFrameBytes (fun c maxFrameBytes => { c with maxFrameBytes })
      (restores_uint64 "usize" _) fun _ => rfl,
    .of "subscribe_filter" subscribeFilter (fun c subscribeFilter => { c with subscribeFilter })
      (restores_string _) fun _ => rfl,
    .of "reconnect" reconnect (fun c reconnect => { c with reconnect })
      ReconnectConfig.schema.restores fun _ => rfl]
  fields := rfl
  distinct := by decide
  apart := by simp [Part.of]
  whole := by simp [Part.of]

/-- The settings of the log. -/
def LogConfig.schema : Schema LogConfig.format where
  parts := [
    .of "level" level (fun c level => { c with level }) (restores_string _) fun _ => rfl,
    .of "json" json (fun c json => { c with json }) (restores_bool _) fun _ => rfl]
  fields := rfl
  distinct := by decide
  apart := by simp [Part.of]
  whole := by simp [Part.of]

/-- The sections. -/
def ClusterConfig.schema : Schema ClusterConfig.format where
  parts := [
    .of "tree" tree (fun c tree => { c with tree }) TreeConfig.schema.restores fun _ => rfl,
    .of "looper" looper (fun c looper => { c with looper }) LooperConfig.schema.restores
      fun _ => rfl,
    .of "transport" transport (fun c transport => { c with transport })
      TransportConfig.schema.restores fun _ => rfl,
    .of "log" log (fun c log => { c with log }) LogConfig.schema.restores fun _ => rfl]
  fields := rfl
  distinct := by decide
  apart := by simp [Part.of]
  whole := by simp [Part.of]

/-! ### The bounds -/

/-- A bound that settings keep or not, and the error if they do not. -/
structure Bound where
  holds : Bool
  error : ConfigError

namespace ClusterConfig

/-- All bounds of settings, section by section. -/
def bounds (c : ClusterConfig) : List Bound := [
  ⟨1 ≤ c.tree.fanOut.toNat, "tree.fan_out", "must be at least 1"⟩,
  ⟨1 ≤ c.looper.mailboxCapacity.toNat, "looper.mailbox_capacity", "must be at least 1"⟩,
  ⟨Wire.preambleLength ≤ c.transport.maxFrameBytes.toNat, "transport.max_frame_bytes",
    Decimal.text c.transport.maxFrameBytes.toNat ++ " cannot hold a message header"⟩,
  ⟨c.transport.reconnect.baseDelayMs.toNat ≤ c.transport.reconnect.maxDelayMs.toNat,
    "transport.reconnect.max_delay_ms",
    Decimal.text c.transport.reconnect.maxDelayMs.toNat ++ " is below base_delay_ms " ++
      Decimal.text c.transport.reconnect.baseDelayMs.toNat⟩,
  ⟨lowered c.log.level ∈ LogConfig.levels, "log.level",
    "unknown level '" ++ lowered c.log.level ++ "'"⟩]

/-- The report on bounds: the error of the first one that is violated. -/
def report (bounds : List Bound) : Except ConfigError Unit :=
  match bounds.find? fun b => !b.holds with
  | none => .ok ()
  | some b => .error b.error

theorem report_eq_ok_iff {bounds : List Bound} :
    report bounds = .ok () ↔ ∀ b ∈ bounds, b.holds = true := by
  cases found : bounds.find? fun b => !b.holds with
  | none => simpa [report, found] using List.find?_eq_none.mp found
  | some b =>
      have violated := List.find?_some found
      simp only [report, found, reduceCtorEq, false_iff]
      exact fun all => by simp [all b (List.mem_of_find?_eq_some found)] at violated

theorem report_eq_error_iff {bounds : List Bound} {e : ConfigError} :
    report bounds = .error e ↔ ∃ kept b more, bounds = kept ++ b :: more ∧
      (∀ k ∈ kept, k.holds = true) ∧ b.holds = false ∧ b.error = e := by
  have first (b : Bound) : bounds.find? (fun b => !b.holds) = some b ↔
      b.holds = false ∧ ∃ kept more, bounds = kept ++ b :: more ∧ ∀ k ∈ kept, k.holds = true := by
    simp [List.find?_eq_some_iff_append]
  cases found : bounds.find? fun b => !b.holds with
  | none =>
      simp only [report, found, reduceCtorEq, false_iff]
      rintro ⟨kept, b, more, split, all, violated, -⟩
      simpa [found] using (first b).mpr ⟨violated, kept, more, split, all⟩
  | some b =>
      simp only [report, found, Except.error.injEq]
      constructor
      · rintro rfl
        obtain ⟨violated, kept, more, split, all⟩ := (first b).mp found
        exact ⟨kept, b, more, split, all, violated, rfl⟩
      · rintro ⟨kept, b', more, split, all, violated, rfl⟩
        have same := (first b').mpr ⟨violated, kept, more, split, all⟩
        rw [Option.some.inj (found.symm.trans same)]

theorem report_nil : report [] = pure () :=
  rfl

theorem report_cons (b : Bound) (bounds : List Bound) :
    report (b :: bounds) =
      (do ensure b.holds b.error.field b.error.reason; report bounds) := by
  cases holds : b.holds <;> simp [report, ensure, holds] <;> rfl

theorem validate_eq (c : ClusterConfig) : c.validate = report c.bounds := by
  have positive (n : UInt64) : decide (n ≠ 0) = decide (1 ≤ n.toNat) := by
    rw [decide_eq_decide, Nat.one_le_iff_ne_zero, not_iff_not, ← UInt64.toNat_inj]
    rfl
  have known (s : String) : LogConfig.levels.contains s = decide (s ∈ LogConfig.levels) :=
    List.contains_eq_mem s _
  simp only [bounds, report_cons, validate, TreeConfig.validate, LooperConfig.validate,
    TransportConfig.validate, ReconnectConfig.validate, LogConfig.validate, positive, known,
    UInt64.le_iff_toNat_le, bind_assoc, report_nil, bind_pure_unit]

/-! ### The whole -/

theorem restores : Restores format.read toJson {} :=
  schema.restores

theorem ofJson_of_readAll {text : String} {c : ClusterConfig}
    (h : readAll format.read text = .ok c) :
    ofJson text = match c.validate with
      | .error e => .error (.config e)
      | .ok () => .ok c := by
  cases checked : c.validate <;> simp only [ofJson, h, checked]

/-- **Settings survive JSON and are checked as they stand**: settings are read back from their
text, and `ofJson` accepts that text exactly if `validate` accepts them.  Otherwise both report
the same error, that of the first bound that is violated in the order of the sections.  Members
with their default values, single settings or whole sections at any depth, can be left out of the
text without a change of the result. -/
theorem recovered_and_checked (c : ClusterConfig) :
    readAll format.read c.toJson.text = .ok c ∧
    (ofJson c.toJson.text = .ok c ↔ c.validate = .ok ()) ∧
    (∀ e, ofJson c.toJson.text = .error e ↔ ∃ violated, c.validate = .error violated ∧
      e = .config violated) ∧
    (c.validate = .ok () ↔ ∀ b ∈ c.bounds, b.holds = true) ∧
    (∀ e, c.validate = .error e ↔ ∃ kept b more, c.bounds = kept ++ b :: more ∧
      (∀ k ∈ kept, k.holds = true) ∧ b.holds = false ∧ b.error = e) ∧
    ∀ omitted, SameAt omitted c.toJson ({} : ClusterConfig).toJson →
      readAll format.read (c.toJson.without omitted).text = .ok c ∧
      ofJson (c.toJson.without omitted).text = ofJson c.toJson.text := by
  have whole : readAll format.read c.toJson.text = .ok c := (restores.recovers c).readAll
  have checked := ofJson_of_readAll whole
  refine ⟨whole, ?_, ?_, ?_, ?_, fun omitted same => ?_⟩
  · rw [checked]
    cases c.validate <;> simp
  · intro e
    rw [checked]
    cases c.validate <;> simp [eq_comm]
  · rw [validate_eq, report_eq_ok_iff]
  · intro e
    rw [validate_eq, report_eq_error_iff]
  · have read := (restores c omitted same).readAll
    exact ⟨read, (ofJson_of_readAll read).trans checked.symm⟩

/-- Of two settings and the defaults, only the two are in the text. -/
theorem recovered_and_checked_of_two_settings :
    let c : ClusterConfig :=
      { tree := { fanOut := 3 }, transport := { subscribeFilter := "\x08" } }
    let omitted : List String → Bool := fun path =>
      [["looper"], ["transport", "max_frame_bytes"], ["transport", "reconnect"], ["log"]].contains
        path
    SameAt omitted c.toJson ({} : ClusterConfig).toJson ∧
      c.toJson.without omitted = .object [("tree", .object [("fan_out", .number 3)]),
        ("transport", .object [("subscribe_filter", .string "\x08")])] ∧
      ofJson (c.toJson.without omitted).text = .ok c := by
  intro c omitted
  have same : SameAt omitted c.toJson ({} : ClusterConfig).toJson := by
    intro path left
    have listed : path = ["looper"] ∨ path = ["transport", "max_frame_bytes"] ∨
        path = ["transport", "reconnect"] ∨ path = ["log"] := by
      simpa [omitted] using left
    rcases listed with rfl | rfl | rfl | rfl <;> rfl
  obtain ⟨-, accepted, -, -, -, partly⟩ := recovered_and_checked c
  exact ⟨same, rfl, (partly omitted same).2.trans (accepted.mpr (by decide))⟩

end ClusterConfig

end TreeCluster
