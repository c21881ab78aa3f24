import Sigil.Api.SavedObjects

namespace Sigil
namespace Api

/-!
# What a listing of saved objects shows

A listing shows the objects of all rows whose keys start with the kind and the separator.
Two stores that differ in secrets only give the same listing for every kind but those
whose rows are rows of tokens or of agents.
-/

open Sigil.Core Storage Edr

/-- Two rows differ at most in the value of a token or in the credential of an agent. -/
inductive SecretsApart :
    String × Option SavedObject → String × Option SavedObject → Prop where
  | same (row : String × Option SavedObject) : SecretsApart row row
  | token (rec : TokenRecord) (value : String) :
      SecretsApart (savedKey tokenKind rec.token, some rec.object)
        (savedKey tokenKind value, some { rec with token := value }.object)
  | session (rec : AgentRecord) (value : String) (now : Int) :
      SecretsApart (savedKey agentKind rec.agentId, some (rec.object now))
        (savedKey agentKind rec.agentId, some ({ rec with sessionToken := value }.object now))

/-- Two stores have the same rows but for secrets. -/
def DifferInSecrets (store store' : Store) : Prop :=
  ∃ rows, rows.Perm store'.rows ∧ List.Forall₂ SecretsApart store.rows rows

/-- The rows of the kind are rows of the other one. -/
def Within (kind other : String) : Prop :=
  (other ++ sep).toList <+: (kind ++ sep).toList

/-- A listing of the kind shows tokens or agents. -/
def Exposes (kind : String) : Prop :=
  Within kind tokenKind ∨ Within kind agentKind

/-! ## Keys that start with a kind -/

/-- A kind without the separator has no rows in common with kinds that are not within it. -/
theorem within_of_starts {kind other id : String} (plain : '\x1f' ∉ other.toList)
    (starts : (kind ++ sep).toList <+: (savedKey other id).toList) : Within kind other := by
  have own : (other ++ sep).toList <+: (savedKey other id).toList := by
    have parts : (savedKey other id).toList = (other ++ sep).toList ++ id.toList :=
      String.toList_append
    rw [parts]
    exact List.prefix_append _ _
  rcases List.prefix_or_prefix_of_prefix own starts with within | shorter
  · exact within
  · have sepList : sep.toList = ['\x1f'] := by decide
    rw [String.toList_append, String.toList_append, sepList, List.prefix_concat_iff] at shorter
    rcases shorter with equal | inside
    · have whole : (other ++ sep).toList = (kind ++ sep).toList := by
        rw [String.toList_append, String.toList_append, sepList, equal]
      exact ⟨[], (List.append_nil _).trans whole⟩
    · exact absurd (inside.subset (List.mem_append_right _ List.mem_cons_self)) plain

theorem plain_tokenKind : '\x1f' ∉ tokenKind.toList := by decide

theorem plain_agentKind : '\x1f' ∉ agentKind.toList := by decide

section Hidden

variable {kind : String}

/-- Where a listing exposes nothing, it takes no row that differs. -/
theorem SecretsApart.hidden (hidden : ¬ Exposes kind) {row row' : String × Option SavedObject}
    (apart : SecretsApart row row') :
    row = row' ∨ ¬ (kind ++ sep).toList <+: row.1.toList ∧
      ¬ (kind ++ sep).toList <+: row'.1.toList := by
  cases apart with
  | same => exact Or.inl rfl
  | token rec value =>
      have outside : ∀ id, ¬ (kind ++ sep).toList <+: (savedKey tokenKind id).toList :=
        fun id starts => hidden (Or.inl (within_of_starts plain_tokenKind starts))
      exact Or.inr ⟨outside _, outside _⟩
  | session rec value now =>
      have outside : ∀ id, ¬ (kind ++ sep).toList <+: (savedKey agentKind id).toList :=
        fun id starts => hidden (Or.inr (within_of_starts plain_agentKind starts))
      exact Or.inr ⟨outside _, outside _⟩

theorem filter_apart (hidden : ¬ Exposes kind) {rows rows' : List (String × Option SavedObject)}
    (apart : List.Forall₂ SecretsApart rows rows') :
    (rows.filter fun row => (kind ++ sep).toList <+: row.1.toList) =
      rows'.filter fun row => (kind ++ sep).toList <+: row.1.toList := by
  induction apart with
  | nil => rfl
  | cons here _ inductionHypothesis =>
      rw [List.filter_cons, List.filter_cons, inductionHypothesis]
      rcases here.hidden hidden with rfl | ⟨outside, outside'⟩
      · rfl
      · rw [if_neg (by rwa [decide_eq_true_eq]), if_neg (by rwa [decide_eq_true_eq])]

/-- The rows of a listing do not depend on secrets. -/
theorem listed_rows (hidden : ¬ Exposes kind) {store store' : Store}
    (differ : DifferInSecrets store store') :
    (store.rows.filter fun row => (kind ++ sep).toList <+: row.1.toList) =
      store'.rows.filter fun row => (kind ++ sep).toList <+: row.1.toList := by
  rcases differ with ⟨rows, same, apart⟩
  have perm : (store.rows.filter fun row => (kind ++ sep).toList <+: row.1.toList).Perm
      (store'.rows.filter fun row => (kind ++ sep).toList <+: row.1.toList) := by
    rw [filter_apart hidden apart]
    exact same.filter _
  refine List.Perm.eq_of_pairwise (fun a b isA isB low high => ?_)
    (store.rows_sorted.filter _) (store'.rows_sorted.filter _) perm
  have inStore := List.mem_of_mem_filter (perm.mem_iff.mp isA)
  exact List.inj_on_of_nodup_map store'.rows_nodup inStore (List.mem_of_mem_filter isB)
    (le_antisymm low high)

theorem listSaved_congr {store store' : Store}
    (same : (store.rows.filter fun row => (kind ++ sep).toList <+: row.1.toList) =
      store'.rows.filter fun row => (kind ++ sep).toList <+: row.1.toList) :
    store.listSaved kind = store'.listSaved kind := by
  rw [Store.listSaved, Store.listSaved, same]

end Hidden

/-! ## Kinds that expose secrets -/

/-- The store with one row. -/
def oneRow (key : String) (obj : SavedObject) : Store where
  saved := AList.singleton key (some obj)

theorem rows_oneRow (key : String) (obj : SavedObject) :
    (oneRow key obj).rows = [(key, some obj)] :=
  rfl

theorem listSaved_oneRow {kind key : String} (obj : SavedObject)
    (starts : (kind ++ sep).toList <+: key.toList) :
    (oneRow key obj).listSaved kind = .ok [obj] := by
  have only : ([(key, some obj)].filter fun row => (kind ++ sep).toList <+: row.1.toList) =
      [(key, some obj)] := List.filter_cons_of_pos (decide_eq_true starts)
  rw [Store.listSaved, rows_oneRow, only]
  rfl

theorem differ_oneRow {key key' : String} {obj obj' : SavedObject}
    (apart : SecretsApart (key, some obj) (key', some obj')) :
    DifferInSecrets (oneRow key obj) (oneRow key' obj') := by
  refine ⟨[(key', some obj')], ?_, ?_⟩
  · rw [rows_oneRow]
  · rw [rows_oneRow]
    exact .cons apart .nil

theorem savedList_oneRow {kind key : String} (obj : SavedObject)
    (starts : (kind ++ sep).toList <+: key.toList) (user : AuthUser) :
    savedList (some (oneRow key obj)) user kind = .list kind [obj] := by
  rw [savedList, listSaved_oneRow obj starts]

/-- The rest of a kind within another one. -/
theorem Within.rest {kind other : String} (within : Within kind other) :
    ∃ rest : String, ∀ last : String,
      (kind ++ sep).toList <+: (savedKey other (rest ++ last)).toList := by
  rcases within with ⟨rest, equal⟩
  refine ⟨String.ofList rest, fun last => ?_⟩
  have key : (savedKey other (String.ofList rest ++ last)).toList =
      (kind ++ sep).toList ++ last.toList := by
    have parts : (savedKey other (String.ofList rest ++ last)).toList =
        (other ++ sep).toList ++ (String.ofList rest ++ last).toList := String.toList_append
    rw [parts, String.toList_append, String.toList_append, String.toList_ofList,
      ← List.append_assoc, ← String.toList_append, equal]
  rw [key]
  exact List.prefix_append _ _

/-- Non-administrators see the same listing of a kind in all stores that differ in secrets only, if
and only if the rows of the kind are neither rows of tokens nor rows of agents. -/
theorem savedList_same_iff (kind : String) :
    (∀ store store', DifferInSecrets store store' → ∀ user : AuthUser,
      user.has .admin = false →
      savedList (some store) user kind = savedList (some store') user kind) ↔
        ¬ Exposes kind := by
  constructor
  · intro same exposes
    rcases exposes with within | within
    · rcases within.rest with ⟨rest, starts⟩
      have apart := SecretsApart.token
        { token := rest ++ "a", label := "", createdTs := 0, createdBy := none } (rest ++ "b")
      have equal := same _ _ (differ_oneRow apart) { username := "vera", roles := [.viewer] } rfl
      rw [savedList_oneRow _ (starts "a"), savedList_oneRow _ (starts "b")] at equal
      have ids := congrArg SavedObject.id (List.cons.inj (Response.list.inj equal).2).1
      exact absurd ((String.append_right_inj rest).mp ids) (by decide)
    · rcases within.rest with ⟨rest, starts⟩
      have apart := SecretsApart.session
        { agentId := rest, hostname := "", os := "", osVersion := "", agentVersion := "",
          fingerprint := "", sessionToken := "a", enrolledTs := 0, lastSeen := 0,
          isolated := false } "b" 0
      have start : (kind ++ sep).toList <+: (savedKey agentKind rest).toList := by
        have longer := starts ""
        rwa [String.append_empty] at longer
      have equal := same _ _ (differ_oneRow apart) { username := "vera", roles := [.viewer] } rfl
      rw [savedList_oneRow _ start, savedList_oneRow _ start] at equal
      have bodies := congrArg SavedObject.body (List.cons.inj (Response.list.inj equal).2).1
      simp [AgentRecord.object, AgentRecord.toJson] at bodies
  · intro hidden store store' differ user _
    rw [savedList, savedList, listSaved_congr (listed_rows hidden differ)]

/-- A viewer lists the kind of enrollment tokens and sees their values. -/
theorem not_savedList_same :
    ¬ ∀ kind store store', DifferInSecrets store store' → ∀ user : AuthUser,
      user.has .admin = false →
        savedList (some store) user kind = savedList (some store') user kind := by
  intro always
  have apart := SecretsApart.token
    { token := "alpha", label := "", createdTs := 0, createdBy := none } "beta"
  have equal := always tokenKind _ _ (differ_oneRow apart)
    { username := "vera", roles := [.viewer] } rfl
  rw [savedList_oneRow _ (by decide), savedList_oneRow _ (by decide)] at equal
  have ids := congrArg SavedObject.id (List.cons.inj (Response.list.inj equal).2).1
  exact absurd ids (by decide)

end Api
end Sigil
