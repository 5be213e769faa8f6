import Lotse.Versioned

set_option autoImplicit false

/-!
# Migrations of the database

The statements of `migrations` as far as they decide whether a statement can be executed:
the tables with their columns, and the indexes. `migrate` is the process of
`Lotse.Versioned`; a transaction that is not committed leaves nothing. Besides the hub, the
command that makes enrollment tokens opens the database, also while the hub runs.
-/
namespace Lotse.Migrations
open Versioned

structure Table where
  name : String
  columns : List String
  deriving DecidableEq

structure Schema where
  tables : List Table
  indexes : List String
  deriving DecidableEq

inductive Statement where
  | createTable (name : String) (columns : List String)
  | addColumn (table column : String)
  | createIndex (name table : String) (columns : List String)
  | insert (table : String) (columns : List String) (rows : List (List String))
  | update (table column : String) (reads : List String)
  deriving DecidableEq

namespace Schema

def named (s : Schema) (name : String) : Bool :=
  s.tables.any (·.name == name) || s.indexes.contains name

def reads (s : Schema) (table : String) (columns : List String) : Bool :=
  s.tables.any fun t => t.name == table && columns.all t.columns.contains

inductive Object where
  | named (name : String)
  | column (table name : String)

def Has (s : Schema) : Object → Prop
  | .named name => s.named name = true
  | .column table name => s.reads table [name] = true

end Schema

def exec : Statement → Schema → Option Schema
  | .createTable name columns, s =>
    if s.named name then none else some { s with tables := s.tables ++ [⟨name, columns⟩] }
  | .addColumn table column, s =>
    if s.reads table [] = true ∧ s.reads table [column] = false then
      some { s with tables := s.tables.map fun t =>
        if t.name = table then { t with columns := t.columns ++ [column] } else t }
    else none
  | .createIndex name table columns, s =>
    if s.named name = false ∧ s.reads table columns = true then
      some { s with indexes := s.indexes ++ [name] }
    else none
  | .insert table columns _, s => if s.reads table columns then some s else none
  | .update table column reads, s => if s.reads table (column :: reads) then some s else none

def makes : Statement → Option Schema.Object
  | .createTable name _ => some (.named name)
  | .addColumn table column => some (.column table column)
  | .createIndex name _ _ => some (.named name)
  | .insert _ _ _ | .update _ _ _ => none

def migrations : List (List Statement) := [
  [.createTable "users" ["id", "username", "password_hash", "created_at"],
    .createTable "sessions" ["token_hash", "user_id", "expires_at"],
    .createTable "enroll_tokens" ["token_hash", "created_at", "expires_at"],
    .createTable "systems" ["id", "name", "fingerprint", "info", "agent_version", "last_seen",
      "last_metrics", "created_at"],
    .createTable "metrics" ["system_id", "res", "ts", "cpu", "mem_used", "mem_total", "swap_used",
      "swap_total", "disk_used", "disk_total", "disk_read", "disk_write", "net_rx", "net_tx", "load1",
      "load5", "load15"]],
  [.addColumn "users" "totp_secret", .addColumn "sessions" "elevated_until",
    .createTable "audit_log" ["id", "ts", "username", "action", "system_id", "system_name", "remote",
      "detail"],
    .createIndex "audit_log_ts" "audit_log" ["ts"]],
  [.createTable "notifiers" ["id", "name", "type", "config", "enabled", "last_sent", "last_error",
      "created_at"],
    .createTable "alert_rules" ["id", "name", "system_id", "metric", "threshold", "duration",
      "notifiers", "enabled", "created_at"],
    .createTable "alerts" ["id", "rule_id", "rule_name", "system_id", "system_name", "metric",
      "threshold", "value", "started_at", "resolved_at"],
    .createIndex "alerts_resolved" "alerts" ["resolved_at"],
    .insert "alert_rules" ["name", "metric", "threshold", "duration", "created_at"]
      [["'System offline'", "'offline'", "0", "120", "unixepoch()"],
        ["'High CPU'", "'cpu'", "90", "300", "unixepoch()"],
        ["'High memory'", "'memory'", "90", "300", "unixepoch()"],
        ["'Disk almost full'", "'disk'", "90", "60", "unixepoch()"]]],
  [.addColumn "users" "role", .addColumn "users" "last_login", .addColumn "users" "passkey_handle",
    .createIndex "users_passkey_handle" "users" ["passkey_handle"],
    .createTable "passkeys" ["id", "user_id", "name", "rp_id", "credential_id", "public_key",
      "algorithm", "sign_count", "created_at", "last_used"],
    .createIndex "passkeys_user" "passkeys" ["user_id"],
    .createTable "scripts" ["id", "name", "description", "shell", "content", "timeout", "created_by",
      "created_at", "updated_at"],
    .createTable "script_runs" ["id", "script_id", "name", "shell", "content", "timeout", "username",
      "started_at", "finished_at", "targets"],
    .createIndex "script_runs_started" "script_runs" ["started_at"]],
  [.addColumn "script_runs" "summary", .update "script_runs" "summary" ["targets"]]]

section exec
variable {st : Statement} {s s' : Schema}

theorem named_append (name other : String) (columns : List String) (h : s.named name = true) :
    Schema.named { s with tables := s.tables ++ [⟨other, columns⟩] } name = true := by
  simp only [Schema.named, List.any_append, Bool.or_eq_true] at h ⊢
  tauto

theorem exec_keeps {k : Schema.Object} (h : exec st s = some s') (hk : s.Has k) : s'.Has k := by
  cases st with
  | createTable name columns =>
    simp only [exec] at h
    split_ifs at h
    cases h
    cases k with
    | named other => exact named_append other name columns hk
    | column table column =>
      simp only [Schema.Has, Schema.reads, List.any_append, Bool.or_eq_true] at hk ⊢
      exact .inl hk
  | addColumn table column =>
    simp only [exec] at h
    split_ifs at h
    cases h
    cases k with
    | named other =>
      simp only [Schema.Has, Schema.named, List.any_map, Bool.or_eq_true, List.any_eq_true] at hk ⊢
      refine hk.imp_left fun ⟨t, ht, hname⟩ => ⟨t, ht, ?_⟩
      simp only [Function.comp_apply]
      split_ifs <;> exact hname
    | column table' column' =>
      simp only [Schema.Has, Schema.reads, List.any_map, List.any_eq_true] at hk ⊢
      obtain ⟨t, ht, hcols⟩ := hk
      refine ⟨t, ht, ?_⟩
      simp only [Function.comp_apply]
      split_ifs
      · simp only [Bool.and_eq_true, List.all_cons, List.all_nil, List.contains_append] at hcols ⊢
        exact ⟨hcols.1, by rw [hcols.2.1]; rfl, trivial⟩
      · exact hcols
  | createIndex name table columns =>
    simp only [exec] at h
    split_ifs at h
    cases h
    cases k with
    | named other =>
      simp only [Schema.Has, Schema.named, List.contains_append, Bool.or_eq_true] at hk ⊢
      tauto
    | column table' column' => exact hk
  | insert table columns rows =>
    simp only [exec] at h
    split_ifs at h
    cases h
    exact hk
  | update table column reads =>
    simp only [exec] at h
    split_ifs at h
    cases h
    exact hk

theorem exec_fresh {k : Schema.Object} (h : exec st s = some s') (hk : makes st = some k) :
    ¬ s.Has k := by
  cases st with
  | createTable name columns =>
    cases hk
    simp only [exec] at h
    split_ifs at h with hnamed
    exact hnamed
  | addColumn table column =>
    cases hk
    simp only [exec] at h
    split_ifs at h with hok
    change ¬ s.reads table [column] = true
    rw [hok.2]
    decide
  | createIndex name table columns =>
    cases hk
    simp only [exec] at h
    split_ifs at h with hok
    change ¬ s.named name = true
    rw [hok.1]
    decide
  | insert => cases hk
  | update => cases hk

theorem exec_made {k : Schema.Object} (h : exec st s = some s') (hk : makes st = some k) :
    s'.Has k := by
  cases st with
  | createTable name columns =>
    cases hk
    simp only [exec] at h
    split_ifs at h
    cases h
    simp [Schema.Has, Schema.named]
  | addColumn table column =>
    cases hk
    simp only [exec] at h
    split_ifs at h with hok
    cases h
    simp only [Schema.reads, List.any_eq_true, Bool.and_eq_true, beq_iff_eq] at hok
    obtain ⟨⟨t, ht, hname, -⟩, -⟩ := hok
    simp only [Schema.Has, Schema.reads, List.any_map, List.any_eq_true]
    exact ⟨t, ht, by simp [hname]⟩
  | createIndex name table columns =>
    cases hk
    simp only [exec] at h
    split_ifs at h
    cases h
    simp [Schema.Has, Schema.named]
  | insert => cases hk
  | update => cases hk

end exec

def ddl : Changes Schema Statement Schema.Object where
  exec := exec
  Has := Schema.Has
  makes := makes
  keeps := exec_keeps
  fresh := exec_fresh
  made := exec_made

def emptySchema : Schema := ⟨[], []⟩

def schemaAt (v : ℕ) : Option Schema := ddl.runAll (migrations.take v).flatten emptySchema

theorem migrations_make : ∀ m ∈ migrations, ∃ st ∈ m, (makes st).isSome := by
  have h : ∀ m ∈ migrations, (m.any fun st => (makes st).isSome) = true := by decide +kernel
  intro m hm
  simpa using h m hm

theorem migrations_apply : ∃ final, ddl.runAll migrations.flatten emptySchema = some final := by
  have h : (ddl.runAll migrations.flatten emptySchema).isSome = true := by decide +kernel
  exact Option.isSome_iff_exists.1 h

def step : State Schema Statement → Action → Option (State Schema Statement) :=
  Versioned.step ddl migrations

/-- A database of any older version that any number of processes open at the same time, with
failures and kills at any point: its schema is always that of its version, the statements of
every further migration were committed once and in order, a process that is through sees the
newest version, and a new process that is left alone gets there. -/
theorem migrations_once {v : ℕ} {schema : Schema} (hv : v ≤ migrations.length)
    (hschema : schemaAt v = some schema) {acts : List Action} {g : State Schema Statement}
    (run : Runs.exec step ⟨v, schema, [], []⟩ acts = some g) :
    (v ≤ g.version ∧ g.version ≤ migrations.length) ∧ schemaAt g.version = some g.schema ∧
    g.log = ((migrations.take g.version).drop v).flatten ∧
    (∀ p ∈ g.procs, p = .opened → g.version = migrations.length) ∧
    ∃ g', Runs.exec step g (.start :: .step g.procs.length false ::
      List.replicate (migrations.length - g.version + 1) (.step g.procs.length false)) = some g' ∧
      g'.procs[g.procs.length]? = some .opened := by
  have hinit : Ok ddl migrations emptySchema v ⟨v, schema, [], []⟩ := by
    refine ⟨le_rfl, hv, hschema, ?_, by simp⟩
    rw [List.drop_take]
    simp
  have h := hinit.exec migrations_make run
  refine ⟨⟨h.from_start, h.version⟩, h.schema, h.log, fun p hp hopened => ?_, ?_⟩
  · have := h.procs p hp
    rw [hopened] at this
    exact this
  · obtain ⟨final, hfinal⟩ := migrations_apply
    have hstart : step g .start = some { g with procs := g.procs ++ [.read] } := rfl
    have hok := h.step migrations_make hstart
    have hread : step { g with procs := g.procs ++ [Pc.read] } (.step g.procs.length false) =
        some { g with procs := (g.procs ++ [Pc.read]).set g.procs.length (.loop g.version) } := by
      simp [step, Versioned.step, advance]
    obtain ⟨g', hexec, hopened⟩ := (hok.step migrations_make hread).completes hfinal migrations_make
      (List.getElem?_set_self (by simp))
    refine ⟨g', ?_, hopened⟩
    rw [Runs.exec_cons, hstart, Option.bind_some, Runs.exec_cons, hread]
    exact hexec

def twoOpen : List Action :=
  [.start, .start, .step 0 false, .step 1 false, .step 0 false, .step 1 false, .step 0 false, .kill 0]

theorem migrations_once_two : ∃ schema g, schemaAt 2 = some schema ∧
    Runs.exec step ⟨2, schema, [], []⟩ twoOpen = some g ∧ g.version = 4 ∧
    g.procs = [.failed, .failed] ∧ g.log = ((migrations.take 4).drop 2).flatten := by
  obtain ⟨schema, hschema⟩ : ∃ schema, schemaAt 2 = some schema :=
    Option.isSome_iff_exists.1 (by decide +kernel)
  have hview : ((schemaAt 2).bind fun schema =>
      (Runs.exec step ⟨2, schema, [], []⟩ twoOpen).map fun g => (g.version, g.procs)) =
      some (4, [.failed, .failed]) := by decide +kernel
  rw [hschema, Option.bind_some] at hview
  obtain ⟨g, hg, hview⟩ := Option.map_eq_some_iff.1 hview
  obtain ⟨hversion, hprocs⟩ := Prod.mk.inj hview
  refine ⟨schema, g, hschema, hg, hversion, hprocs, ?_⟩
  have hlog := (migrations_once (by decide) hschema hg).2.2.1
  rwa [hversion] at hlog

end Lotse.Migrations
