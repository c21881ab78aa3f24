import Sigil.Api.Platform
import Sigil.Edr.Records

namespace Sigil
namespace Api

/-!
# Authority

Who may do what, over whole runs of the platform: a request runs as a user who has logged in, and
what the gateway of the endpoints trusts goes back to the configuration, to an administrator, or to
an analyst who wrote the saved object of that kind.
-/

open Sigil.Core Storage Edr Library TransitionSystem

section Authority

variable (crypto : Crypto) (decode : Decoders)

/-- A moment of a run of the platform. -/
abbrev At (events earlier : List PlatformEvent) (before : Platform)
    (event : PlatformEvent) : Prop :=
  Moment (Platform.step crypto decode) Platform.installed events earlier before event

/-- A login of the run has handed out the token, in a process with the secret that is in force. -/
structure Minted (events : List PlatformEvent) (s : Platform) (token : String) (user : AuthUser)
    (past : List PlatformEvent) (then_ : Platform) (username password : String) : Prop where
  moment : At crypto decode events past then_ (.login username password)
  granted : then_.auth.login crypto then_.now username password =
    .granted token then_.auth.ttl user
  secret : then_.auth.secret = s.auth.secret

/-- Authentication is off, or the request bears a token that a login has handed out to the user, not
longer ago than it lives. -/
def Vouched (events : List PlatformEvent) (s : Platform) (req : Credentials)
    (user : AuthUser) : Prop :=
  (s.auth.enabled = false ∧ user = .system) ∨
    (s.auth.enabled = true ∧ ∃ token past then_ username password,
      extractToken req = some token ∧
        Minted crypto decode events s token user past then_ username password ∧
          s.now.toNat ≤ (then_.auth.expiry then_.now).toNat + 60)

/-- A token that verifies was handed out by a login. -/
def Genuine (events : List PlatformEvent) (s : Platform) (req : Credentials) : Prop :=
  ∀ token, extractToken req = some token → (crypto.decode s.auth.secret s.now token).isSome →
    ∃ user past then_ username password,
      Minted crypto decode events s token user past then_ username password

/-- Nobody forges tokens: at every moment, the tokens of the requests are genuine. -/
def Unforged (events : List PlatformEvent) : Prop :=
  ∀ {earlier : List PlatformEvent} {before : Platform} {event : PlatformEvent}
    {req : Credentials},
    At crypto decode events earlier before event → event.request = some req →
      Genuine crypto decode earlier before req

end Authority

variable {crypto : Crypto} {decode : Decoders}

/-- A request runs as a user exactly when a login has vouched for this user. -/
theorem principal_iff (signs : crypto.Signs) {events : List PlatformEvent} {s : Platform}
    {req : Credentials} (genuine : Genuine crypto decode events s req) (user : AuthUser) :
    s.principal crypto req = some user ↔ Vouched crypto decode events s req user := by
  rw [Platform.principal, requireAuth, Vouched]
  cases s.auth.enabled with
  | false =>
      rw [if_neg Bool.false_ne_true, Option.some.injEq]
      constructor
      · exact fun same => Or.inl ⟨rfl, same.symm⟩
      · rintro (⟨_, same⟩ | ⟨⟨⟩, _⟩)
        exact same.symm
  | true =>
      rw [if_pos rfl, Option.bind_eq_some_iff]
      constructor
      · rintro ⟨token, found, verified⟩
        rcases Option.map_eq_some_iff.mp verified with ⟨claims, decoded, _⟩
        rcases genuine token found (by rw [decoded]; rfl) with
          ⟨other, past, then_, username, password, minted⟩
        have issued := (AuthState.login_granted_iff.mp minted.granted).2.1
        rw [AuthState.verify_issue signs issued minted.secret.symm] at verified
        rw [Option.ite_none_right_eq_some] at verified
        rcases verified with ⟨inTime, same⟩
        cases same
        exact Or.inr ⟨rfl, token, past, then_, username, password, found, minted, inTime⟩
      · rintro (⟨⟨⟩, _⟩ | ⟨_, token, past, then_, username, password,
          found, minted, inTime⟩)
        have issued := (AuthState.login_granted_iff.mp minted.granted).2.1
        refine ⟨token, found, ?_⟩
        rw [AuthState.verify_issue signs issued minted.secret.symm, if_pos inTime]

/-! ## Grants -/

/-- The part of a command's record that stays. -/
def asIssued (rec_ : CommandRecord) : CommandRecord :=
  { rec_ with
    status := "pending"
    resultOk := none
    resultMessage := none
    resultBytes := none
    completedTs := none }

section Grants

variable (acts : Credentials → Role → AuthUser → Prop)

/-- How an enrollment token becomes valid. -/
inductive TokenGrant : PlatformEvent → String → Prop where
  | configured {cfg : Config.AuthConfig} {tokens : List String} {drawn : List UInt8} {now : Int}
      {token : String} (member : token ∈ tokens) :
      TokenGrant (.restart cfg true tokens drawn now) token
  | issued {req : Credentials} {label : Option String} {token : String}
      {now : Int} {user : AuthUser}
      (act : acts req .admin user) : TokenGrant (.tokenCreate req label token now) token
  | saved {req : Credentials} {action : SavedAction} {token : String} {obj : SavedObject}
      {user : AuthUser} (act : acts req .analyst user)
      (write : action.write user.username = some (savedKey tokenKind token, some obj)) :
      TokenGrant (.saved req action) token

/-- How the record of an agent with its credential comes into the row of an identifier. -/
inductive CredentialGrant (decode : Decoders) (store : Store) :
    PlatformEvent → String → AgentRecord → Prop where
  | enrolled {token : String} {req : EnrollRequest} {agentId sessionToken : String} {now : Int}
      (valid : TokenStore.valid store token = .ok true) :
      CredentialGrant decode store (.enroll token req agentId sessionToken now) agentId
        (AgentRecord.fresh agentId req sessionToken now)
  | saved {req : Credentials} {action : SavedAction} {id : String} {obj : SavedObject}
      {rec_ : AgentRecord} {user : AuthUser} (act : acts req .analyst user)
      (write : action.write user.username = some (savedKey agentKind id, some obj))
      (reads : decode.agent obj.body = some rec_) :
      CredentialGrant decode store (.saved req action) id rec_

/-- How the record of a command comes into the row of an identifier. -/
inductive CommandGrant (decode : Decoders) (store : Store) :
    PlatformEvent → String → CommandRecord → Prop where
  | queued {req : Credentials} {id action commandId : String} {params : CommandParams} {now : Int}
      {user : AuthUser} {agent : AgentRecord} (act : acts req .analyst user)
      (known : storedRecord decode store id = .ok (some agent)) :
      CommandGrant decode store (.action req id action params commandId now) commandId
        (CommandRecord.issue commandId id action params user.username now)
  | saved {req : Credentials} {action : SavedAction} {id : String} {obj : SavedObject}
      {rec_ : CommandRecord} {user : AuthUser} (act : acts req .analyst user)
      (write : action.write user.username = some (savedKey commandKind id, some obj))
      (reads : decode.command obj.body = some rec_) :
      CommandGrant decode store (.saved req action) id rec_

end Grants

section Mono

variable {acts acts' : Credentials → Role → AuthUser → Prop}
    {event : PlatformEvent} {store : Store}

theorem TokenGrant.mono
    (more : ∀ {req role user}, event.request = some req → acts req role user →
      acts' req role user)
    {token : String} (grant : TokenGrant acts event token) : TokenGrant acts' event token := by
  cases grant with
  | configured member => exact .configured member
  | issued act => exact .issued (more rfl act)
  | saved act write => exact .saved (more rfl act) write

theorem CredentialGrant.mono
    (more : ∀ {req role user}, event.request = some req → acts req role user →
      acts' req role user)
    {id : String} {rec_ : AgentRecord} (grant : CredentialGrant acts decode store event id rec_) :
    CredentialGrant acts' decode store event id rec_ := by
  cases grant with
  | enrolled valid => exact .enrolled valid
  | saved act write reads => exact .saved (more rfl act) write reads

theorem CommandGrant.mono
    (more : ∀ {req role user}, event.request = some req → acts req role user →
      acts' req role user)
    {id : String} {rec_ : CommandRecord} (grant : CommandGrant acts decode store event id rec_) :
    CommandGrant acts' decode store event id rec_ := by
  cases grant with
  | queued act known => exact .queued (more rfl act) known
  | saved act write reads => exact .saved (more rfl act) write reads

end Mono

/-! ## What every step keeps -/

/-- The request runs as the user, who has the role. -/
def Runs (crypto : Crypto) (before : Platform) (req : Credentials) (role : Role) (user : AuthUser) :
    Prop :=
  before.principal crypto req = some user ∧ user.has role = true

theorem getSaved_iff (store : Store) (kind id : String) (obj : SavedObject) :
    store.getSaved kind id = .ok (some obj) ↔ Platform.Has store (savedKey kind id) obj := by
  rw [Store.getSaved, Platform.Has]
  split
  · next absent => exact iff_of_false (by rintro ⟨⟩) (by rw [absent]; rintro ⟨⟩)
  · next unparsable => exact iff_of_false (by rintro ⟨⟩) (by rw [unparsable]; rintro ⟨⟩)
  · next found =>
      rw [found, Except.ok.injEq, Option.some.injEq, Option.some.injEq, Option.some.injEq]

theorem storedRecord_iff {store : Store} {agentId : String} {rec_ : AgentRecord} :
    storedRecord decode store agentId = .ok (some rec_) ↔
      ∃ obj, Platform.Has store (savedKey agentKind agentId) obj ∧
        decode.agent obj.body = some rec_ := by
  simp only [← getSaved_iff, storedRecord]
  cases store.getSaved agentKind agentId with
  | error error => exact iff_of_false (by rintro ⟨⟩) (by rintro ⟨obj, ⟨⟩, _⟩)
  | ok found =>
      change Except.ok (found.bind fun obj => decode.agent obj.body) = _ ↔ _
      rw [Except.ok.injEq, Option.bind_eq_some_iff]
      simp only [Except.ok.injEq]

theorem queueGet_iff {store : Store} {commandId : String} {rec_ : CommandRecord} :
    CommandQueue.get decode store commandId = .ok (some rec_) ↔
      ∃ obj, Platform.Has store (savedKey commandKind commandId) obj ∧
        decode.command obj.body = some rec_ := by
  simp only [← getSaved_iff, CommandQueue.get]
  cases store.getSaved commandKind commandId with
  | error error => exact iff_of_false (by rintro ⟨⟩) (by rintro ⟨obj, ⟨⟩, _⟩)
  | ok found =>
      change Except.ok (found.bind fun obj => decode.command obj.body) = _ ↔ _
      rw [Except.ok.injEq, Option.bind_eq_some_iff]
      simp only [Except.ok.injEq]

/-- A job writes the record of an agent or of a command. -/
theorem Job.object_kind {job : Job} {now : Int} {obj : SavedObject}
    (writes : job.object now = some obj) :
    obj.kind = agentKind ∨ obj.kind = commandKind := by
  cases job with
  | persistAgent rec_ =>
      cases writes
      exact Or.inl rfl
  | enqueue rec_ | persistCommand rec_ =>
      cases writes
      exact Or.inr rfl
  | connect | send => cases writes

theorem Job.object_of_agentKind {job : Job} {now : Int} {obj : SavedObject} {agentId : String}
    (writes : job.object now = some obj)
    (row : savedKey agentKind agentId = savedKey obj.kind obj.id) :
    ∃ rec_ : AgentRecord, job = .persistAgent rec_ ∧ obj = rec_.object now ∧
      agentId = rec_.agentId := by
  cases job with
  | persistAgent rec_ =>
      cases writes
      exact ⟨rec_, rfl, rfl, savedKey_injective row⟩
  | enqueue rec_ | persistCommand rec_ =>
      cases writes
      exact absurd row (savedKey_ne agentKind_plain commandKind_plain (by decide) _ _)
  | connect | send => cases writes

theorem Job.object_of_commandKind {job : Job} {now : Int} {obj : SavedObject} {commandId : String}
    (writes : job.object now = some obj)
    (row : savedKey commandKind commandId = savedKey obj.kind obj.id) :
    ∃ rec_ : CommandRecord, job.command = some rec_ ∧ obj = rec_.object now ∧
      commandId = rec_.commandId := by
  cases job with
  | persistAgent rec_ =>
      cases writes
      exact absurd row (savedKey_ne commandKind_plain agentKind_plain (by decide) _ _)
  | enqueue rec_ | persistCommand rec_ =>
      cases writes
      exact ⟨rec_, rfl, rfl, savedKey_injective row⟩
  | connect | send => cases writes

theorem tokens_keep :
    Keeps (Platform.step crypto decode) Platform.installed
      (fun s token named => named = token ∧
        ∃ obj, Platform.Has s.store (savedKey tokenKind token) obj)
      (fun _ before event token named => named = token ∧
        TokenGrant (Runs crypto before) event token)
      id id := by
  rintro earlier before event after - stepped token named ⟨rfl, obj, has⟩
  rcases (Platform.step_grows stepped).rows has with old | added
  · exact Or.inl ⟨rfl, obj, old⟩
  · refine Or.inr (Or.inl ⟨rfl, ?_⟩)
    generalize row : savedKey tokenKind named = key at added
    cases added with
    | seeded member =>
        rw [savedKey_injective row]
        exact .configured member
    | saved runs may write =>
        rw [← row] at write
        exact .saved ⟨runs, may⟩ write
    | issued runs may =>
        rw [savedKey_injective row]
        exact .issued ⟨runs, may⟩
    | performed _ writes =>
        rcases Job.object_kind writes with kind | kind
        · rw [kind] at row
          exact absurd row (savedKey_ne tokenKind_plain agentKind_plain (by decide) _ _)
        · rw [kind] at row
          exact absurd row (savedKey_ne tokenKind_plain commandKind_plain (by decide) _ _)

theorem credentials_keep (reads : decode.Reads) :
    Keeps (Platform.step crypto decode) Platform.installed
      (fun s agentId rec_ => storedRecord decode s.store agentId = .ok (some rec_) ∨
        .persistAgent rec_ ∈ s.jobs ∧ rec_.agentId = agentId)
      (fun _ before event agentId rec_ =>
        CredentialGrant (Runs crypto before) decode before.store event agentId rec_)
      AgentRecord.agentId AgentRecord.sessionToken := by
  intro earlier before event after _ stepped agentId rec_ held
  rcases held with stored | ⟨member, rfl⟩
  · rcases storedRecord_iff.mp stored with ⟨obj, has, read⟩
    rcases (Platform.step_grows stepped).rows has with old | added
    · exact Or.inl (Or.inl (storedRecord_iff.mpr ⟨obj, old, read⟩))
    · generalize row : savedKey agentKind agentId = key at added
      cases added with
      | seeded | issued =>
          exact absurd row (savedKey_ne agentKind_plain tokenKind_plain (by decide) _ _)
      | saved runs may write =>
          rw [← row] at write
          exact Or.inr (Or.inl (.saved ⟨runs, may⟩ write read))
      | performed member writes =>
          rcases Job.object_of_agentKind writes row with ⟨written, rfl, rfl, rfl⟩
          cases (reads.agent _).symm.trans read
          exact Or.inl (Or.inr ⟨member, rfl⟩)
  · rcases (Platform.step_grows stepped).jobs member with old | taken
    · exact Or.inl (Or.inr ⟨old, rfl⟩)
    · cases taken with
      | enrolled valid => exact Or.inr (Or.inl (.enrolled valid))
      | left known => exact Or.inr (Or.inr ⟨_, _, Or.inl known, rfl, rfl, rfl⟩)

theorem commands_keep (reads : decode.Reads) :
    Keeps (Platform.step crypto decode) Platform.installed
      (fun s commandId rec_ => CommandQueue.get decode s.store commandId = .ok (some rec_) ∨
        (∃ job ∈ s.jobs, job.command = some rec_) ∧ rec_.commandId = commandId)
      (fun _ before event commandId rec_ =>
        CommandGrant (Runs crypto before) decode before.store event commandId rec_)
      CommandRecord.commandId asIssued := by
  intro earlier before event after _ stepped commandId rec_ held
  rcases held with stored | ⟨⟨job, member, inHand⟩, rfl⟩
  · rcases queueGet_iff.mp stored with ⟨obj, has, read⟩
    rcases (Platform.step_grows stepped).rows has with old | added
    · exact Or.inl (Or.inl (queueGet_iff.mpr ⟨obj, old, read⟩))
    · generalize row : savedKey commandKind commandId = key at added
      cases added with
      | seeded | issued =>
          exact absurd row (savedKey_ne commandKind_plain tokenKind_plain (by decide) _ _)
      | saved runs may write =>
          rw [← row] at write
          exact Or.inr (Or.inl (.saved ⟨runs, may⟩ write read))
      | performed member writes =>
          rcases Job.object_of_commandKind writes row with ⟨written, inHand, rfl, rfl⟩
          cases (reads.command _).symm.trans read
          exact Or.inl (Or.inr ⟨⟨_, member, inHand⟩, rfl⟩)
  · rcases (Platform.step_grows stepped).jobs member with old | taken
    · exact Or.inl (Or.inr ⟨⟨job, old, inHand⟩, rfl⟩)
    · cases taken with
      | queued runs may known =>
          cases inHand
          exact Or.inr (Or.inl (.queued ⟨runs, may⟩ known))
      | finished known =>
          cases inHand
          exact Or.inr (Or.inr ⟨_, _, Or.inl known, rfl, rfl, rfl⟩)
      | persisted present =>
          cases inHand
          exact Or.inl (Or.inr ⟨⟨.enqueue _, present, rfl⟩, rfl⟩)
      | sent present =>
          cases inHand
          exact Or.inr (Or.inr ⟨_, _,
            Or.inr ⟨⟨.send _, present, rfl⟩, rfl⟩, rfl, rfl, rfl⟩)
      | enrolled | left | presented => cases inHand

theorem sessions_keep :
    Keeps (Platform.step crypto decode) Platform.installed
      (fun s agentId named => named = agentId ∧
        (agentId ∈ s.sessions ∨ .connect agentId ∈ s.jobs))
      (fun _ before event agentId named => named = agentId ∧
        ∃ sessionToken, event = .hello agentId sessionToken ∧
          validateStored decode before.store agentId sessionToken = .ok true) id id := by
  rintro earlier before event after - stepped agentId named ⟨rfl, opened | member⟩
  · exact Or.inl ⟨rfl, (Platform.step_grows stepped).sessions opened⟩
  · rcases (Platform.step_grows stepped).jobs member with old | taken
    · exact Or.inl ⟨rfl, Or.inr old⟩
    · cases taken with
      | presented valid => exact Or.inr (Or.inl ⟨rfl, _, rfl, valid⟩)

/-- Who may log in changes with a start only. -/
theorem accounts_keep :
    Keeps (Platform.step crypto decode) Platform.installed
      (fun s named auth => named = auth ∧ s.auth = auth ∧ auth ≠ Platform.installed.auth)
      (fun _ _ event _ auth => ∃ cfg edrEnabled tokens drawn now,
        event = .restart cfg edrEnabled tokens drawn now ∧ auth = AuthState.fromConfig cfg drawn)
      id id := by
  rintro earlier before event after - stepped named auth ⟨rfl, rfl, other⟩
  rcases (Platform.step_grows stepped).auth with same | started
  · exact Or.inl ⟨rfl, same.symm, other⟩
  · exact Or.inr (Or.inl started)

/-- The record that a valid credential is compared with. -/
theorem credential_of_validate {store : Store} {agentId sessionToken : String}
    (valid : validateStored decode store agentId sessionToken = .ok true) :
    ∃ rec_, storedRecord decode store agentId = .ok (some rec_) ∧
      rec_.sessionToken = sessionToken := by
  rw [validateStored] at valid
  cases stored : storedRecord decode store agentId with
  | error error =>
      rw [stored] at valid
      cases valid
  | ok found =>
      rw [stored] at valid
      have matches_ :
          (found.any fun rec_ => sessionToken ≠ "" && rec_.sessionToken = sessionToken) =
          true := Except.ok.inj valid
      cases found with
      | none => cases matches_
      | some rec_ =>
          rw [Option.any_some, Bool.and_eq_true, decide_eq_true_eq, decide_eq_true_eq] at matches_
          exact ⟨rec_, rfl, matches_.2⟩

theorem nothing_stored {key : String} {reads : SavedObject → Prop} :
    ¬ ∃ obj, Platform.Has Platform.installed.store key obj ∧ reads obj := by
  rintro ⟨obj, ⟨⟩, _⟩

/-! ## Whole runs -/

/-- A user with a role for whom a login has vouched. -/
def Acts (crypto : Crypto) (decode : Decoders) (earlier : List PlatformEvent) (before : Platform)
    (req : Credentials) (role : Role) (user : AuthUser) : Prop :=
  user.has role = true ∧ Vouched crypto decode earlier before req user

section Runs

variable {events : List PlatformEvent} {s : Platform}

/-- Where nobody forges tokens, who runs a request acts with authority. -/
theorem acts_of_runs (signs : crypto.Signs) (unforged : Unforged crypto decode events)
    {earlier : List PlatformEvent} {before : Platform} {event : PlatformEvent}
    (moment : At crypto decode events earlier before event) {req : Credentials} {role : Role}
    {user : AuthUser} (request : event.request = some req)
    (runs : Runs crypto before req role user) :
    Acts crypto decode earlier before req role user :=
  ⟨runs.2, (principal_iff signs (unforged moment request) user).mp runs.1⟩

/-- In every run in which nobody forges tokens, each valid enrollment token, each credential of an
agent and each recorded command was granted at some moment by who may do so, and each session goes
back to a hello with a credential that was valid at that moment. -/
theorem authority (signs : crypto.Signs) (reads : decode.Reads)
    (followed : follow (Platform.step crypto decode) Platform.installed events = some s)
    (unforged : Unforged crypto decode events) :
    (∀ token, TokenStore.valid s.store token = .ok true → ∃ earlier before event,
      At crypto decode events earlier before event ∧
        TokenGrant (Acts crypto decode earlier before) event token) ∧
    (∀ agentId sessionToken, validateStored decode s.store agentId sessionToken = .ok true →
      ∃ earlier before event id rec_, At crypto decode events earlier before event ∧
        CredentialGrant (Acts crypto decode earlier before) decode before.store event id rec_ ∧
          rec_.sessionToken = sessionToken ∧ (id = agentId ∨ rec_.agentId = agentId)) ∧
    (∀ commandId rec_, CommandQueue.get decode s.store commandId = .ok (some rec_) →
      ∃ earlier before event id former, At crypto decode events earlier before event ∧
        CommandGrant (Acts crypto decode earlier before) decode before.store event id former ∧
          asIssued former = asIssued rec_ ∧ (id = commandId ∨ former.commandId = commandId)) ∧
    ∀ agentId, agentId ∈ s.sessions → ∃ earlier before sessionToken,
      At crypto decode events earlier before (.hello agentId sessionToken) ∧
        validateStored decode before.store agentId sessionToken = .ok true := by
  refine ⟨fun token valid => ?_, fun agentId sessionToken valid => ?_,
    fun commandId rec_ found => ?_, fun agentId member => ?_⟩
  · have present := ((valid_iff _ _).mp valid).2
    have has : ∃ obj, Platform.Has s.store (savedKey tokenKind token) obj := by
      rw [tokenIn, Option.isSome_iff_exists] at present
      rcases present with ⟨obj, joined⟩
      exact ⟨obj, Option.join_eq_some_iff.mp joined⟩
    rcases tokens_keep.exists_origin (by rintro _ _ ⟨_, _, ⟨⟩⟩) followed ⟨rfl, has⟩ with
      ⟨earlier, before, event, key, named, moment, ⟨rfl, grant⟩, rfl, _⟩
    exact ⟨earlier, before, event, moment, grant.mono (acts_of_runs signs unforged moment)⟩
  · rcases credential_of_validate valid with ⟨rec_, stored, rfl⟩
    rcases Keeps.exists_origin (credentials_keep reads)
        (by
          rintro _ _ (stored | ⟨⟨⟩, _⟩)
          exact nothing_stored (storedRecord_iff.mp stored))
        followed (Or.inl stored) with
      ⟨earlier, before, event, id, former, moment, grant, same, names, either⟩
    refine ⟨earlier, before, event, id, former, moment,
      grant.mono (acts_of_runs signs unforged moment), same, ?_⟩
    exact either.imp_right fun named => names.trans named
  · have nothing : ∀ commandId rec_,
        ¬ (CommandQueue.get decode Platform.installed.store commandId = .ok (some rec_) ∨
          (∃ job ∈ Platform.installed.jobs, job.command = some rec_) ∧
          rec_.commandId = commandId) := by
      rintro _ _ (stored | ⟨⟨job, ⟨⟩, _⟩, _⟩)
      exact nothing_stored (queueGet_iff.mp stored)
    rcases Keeps.exists_origin (commands_keep reads) nothing followed (Or.inl found) with
      ⟨earlier, before, event, id, former, moment, grant, same, names, either⟩
    refine ⟨earlier, before, event, id, former, moment,
      grant.mono (acts_of_runs signs unforged moment), same, ?_⟩
    exact either.imp_right fun named => names.trans named
  · have nothing :
        ∀ agentId named, ¬ (named = agentId ∧ (agentId ∈ Platform.installed.sessions ∨
        .connect agentId ∈ Platform.installed.jobs)) := by
      rintro _ _ ⟨_, opened | waiting⟩
      · cases opened
      · cases waiting
    rcases sessions_keep.exists_origin nothing followed ⟨rfl, Or.inl member⟩ with
      ⟨earlier, before, event, key, named, moment, ⟨rfl, sessionToken, rfl, valid⟩, rfl, _⟩
    exact ⟨earlier, before, sessionToken, moment, valid⟩

/-- At every moment of such a run, a request runs as a user exactly when a login of the run has
vouched for this user: with the password and the roles of the configuration of that time, under the
secret in force, and not longer ago than the token lives. -/
theorem request_runs_as (signs : crypto.Signs) (unforged : Unforged crypto decode events)
    {earlier : List PlatformEvent} {before : Platform} {event : PlatformEvent}
    (moment : At crypto decode events earlier before event) {req : Credentials}
    (request : event.request = some req) (user : AuthUser) :
    before.principal crypto req = some user ↔ Vouched crypto decode earlier before req user :=
  principal_iff signs (unforged moment request) user

/-- With authentication on, a request that runs as a user goes back to a login of the run with the
password, and to the start before it, whose configuration declares the user with its roles. -/
theorem request_user_declared (signs : crypto.Signs) (unforged : Unforged crypto decode events)
    {earlier : List PlatformEvent} {before : Platform} {event : PlatformEvent}
    (moment : At crypto decode events earlier before event) {req : Credentials}
    (request : event.request = some req) {user : AuthUser} (enabled : before.auth.enabled = true)
    (runs : before.principal crypto req = some user) :
    ∃ past then_ username password,
      At crypto decode earlier past then_ (.login username password) ∧
      before.now.toNat ≤ (then_.auth.expiry then_.now).toNat + 60 ∧
        ∃ first starting cfg edrEnabled tokens drawn now,
          At crypto decode past first starting (.restart cfg edrEnabled tokens drawn now) ∧
            then_.auth = AuthState.fromConfig cfg drawn ∧
              ∃ u ∈ cfg.users, u.username = username ∧ user = principalOf u ∧
                Accepts crypto u password := by
  rcases (principal_iff signs (unforged moment request) user).mp runs with
    ⟨disabled, _⟩ | ⟨_, token, past, then_, username, password, _, minted, inTime⟩
  · rw [disabled] at enabled
    cases enabled
  · have authenticated := (AuthState.login_granted_iff.mp minted.granted).1
    have other : then_.auth ≠ Platform.installed.auth := by
      intro same
      rw [same] at authenticated
      cases authenticated
    rcases accounts_keep.exists_origin (by rintro _ _ ⟨_, rfl, other⟩; exact other rfl)
        minted.moment.reached ⟨rfl, rfl, other⟩ with
      ⟨first, starting, event, _, auth, began,
        ⟨cfg, edrEnabled, tokens, drawn, now, rfl, rfl⟩, same, _⟩
    have configured : then_.auth = AuthState.fromConfig cfg drawn := same.symm
    rw [configured] at authenticated
    exact ⟨past, then_, username, password, minted.moment, inTime, first,
      starting, cfg, edrEnabled, tokens, drawn, now, began, configured,
      declared_of_authenticate authenticated⟩

end Runs

/-! ## A first agent -/

def rootClaims : Claims where
  sub := "root"
  roles := ["admin"]
  exp := 10

/-- Signs what the one user of the example gets. -/
def rootCrypto : Crypto where
  verifyPassword _ _ := false
  encode secret claims :=
    if secret = [7] ∧ claims = rootClaims then .ok "signed" else .error "not signed"
  decode secret now token :=
    if secret = [7] ∧ token = "signed" ∧ now.toNat ≤ rootClaims.exp.toNat + 60 then
      some rootClaims
    else none

theorem rootCrypto_signs : rootCrypto.Signs := by
  intro secret claims token now signed
  change (if secret = [7] ∧ claims = rootClaims then Except.ok "signed"
    else .error "not signed") = Except.ok token at signed
  by_cases known : secret = [7] ∧ claims = rootClaims
  · rw [if_pos known, Except.ok.injEq] at signed
    rcases known with ⟨rfl, rfl⟩
    change (if [7] = [7] ∧ token = "signed" ∧ now.toNat ≤ rootClaims.exp.toNat + 60 then
      some rootClaims else none) = _
    simp only [signed, true_and]
  · rw [if_neg known] at signed
    cases signed

def recordDecoders : Decoders where
  agent := AgentRecord.fromJson
  command := CommandRecord.fromJson

def rootConfig : Config.AuthConfig where
  enabled := true
  jwtSecret := ""
  tokenTtlSecs := 10
  users := [⟨"root", none, some "toor", ["admin"]⟩]

def bearer : Credentials where
  authorization := some "Bearer signed"
  query := none

/-- The administrator logs in and issues a token, with which an agent is enrolled. -/
def firstAgent : List PlatformEvent :=
  [.restart rootConfig true [] [7] 0, .login "root" "toor", .tokenCreate bearer none "minted" 1,
    .enroll "minted" ⟨"web01", "linux", "6.1", "0.1.0", "f"⟩ "a1" "cred" 2, .perform 0 2]

/-- The only request of the run bears the token that the login has handed out. -/
theorem firstAgent_unforged : Unforged rootCrypto recordDecoders firstAgent := by
  intro earlier before event req moment request
  rcases moment with ⟨⟨rest, whole⟩, reached⟩
  match earlier with
  | [] =>
      cases whole
      cases request
  | [_] =>
      cases whole
      cases request
  | [_, _] =>
      cases whole
      cases request
      cases reached
      intro token found _
      have same : extractToken bearer = some "signed" := by decide +kernel
      cases same.symm.trans found
      refine ⟨⟨"root", [.admin]⟩, [.restart rootConfig true [] [7] 0], _, "root", "toor",
        ⟨List.prefix_refl _, rfl⟩, ?_, rfl⟩
      exact AuthState.login_granted_iff.mpr ⟨by decide +kernel, rfl, rfl⟩
  | [_, _, _] =>
      cases whole
      cases request
  | [_, _, _, _] =>
      cases whole
      cases request
  | _ :: _ :: _ :: _ :: _ :: _ =>
      have lengths := congrArg List.length whole
      simp [firstAgent] at lengths

theorem authority_firstAgent : ∃ earlier before event id rec_,
    At rootCrypto recordDecoders firstAgent earlier before event ∧
      CredentialGrant (Acts rootCrypto recordDecoders earlier before)
        recordDecoders before.store event
        id rec_ ∧ rec_.sessionToken = "cred" ∧ (id = "a1" ∨ rec_.agentId = "a1") := by
  have ran : ∃ s, follow (Platform.step rootCrypto recordDecoders) Platform.installed firstAgent =
      some s ∧ s.store.saved.lookup (savedKey agentKind "a1") =
        some (some (AgentRecord.object
          (.fresh "a1" ⟨"web01", "linux", "6.1", "0.1.0", "f"⟩ "cred" 2) 2)) :=
    ⟨_, rfl, rfl⟩
  rcases ran with ⟨s, followed, row⟩
  have valid : validateStored recordDecoders s.store "a1" "cred" = .ok true := by
    rw [validateStored_iff, row, credentialIn, Option.join_some, Option.bind_some]
    change ((AgentRecord.fromJson (AgentRecord.toJson _)).map _).filter _ = _
    rw [AgentRecord.fromJson_toJson]
    rfl
  exact (authority rootCrypto_signs decoders_reads followed firstAgent_unforged).2.1
    "a1" "cred" valid

/-- The request of the run is the administrator's. -/
theorem request_runs_as_firstAgent :
    ∃ earlier before,
      At rootCrypto recordDecoders firstAgent earlier before
        (.tokenCreate bearer none "minted" 1) ∧
      Vouched rootCrypto recordDecoders earlier before bearer ⟨"root", [.admin]⟩ := by
  have moment : At rootCrypto recordDecoders firstAgent
      [.restart rootConfig true [] [7] 0, .login "root" "toor"] _
          (.tokenCreate bearer none "minted" 1) :=
    ⟨List.prefix_append _ _, rfl⟩
  refine ⟨_, _, moment, ?_⟩
  exact (request_runs_as rootCrypto_signs firstAgent_unforged moment rfl _).mp (by decide +kernel)

theorem request_user_declared_firstAgent : ∃ earlier before past then_ username password,
    At rootCrypto recordDecoders firstAgent earlier before (.tokenCreate bearer none "minted" 1) ∧
      At rootCrypto recordDecoders earlier past then_ (.login username password) := by
  have moment : At rootCrypto recordDecoders firstAgent
      [.restart rootConfig true [] [7] 0, .login "root" "toor"] _
          (.tokenCreate bearer none "minted" 1) :=
    ⟨List.prefix_append _ _, rfl⟩
  have runs : Platform.principal rootCrypto _ bearer = some ⟨"root", [.admin]⟩ :=
    (by decide +kernel : (Platform.principal rootCrypto
      { Platform.installed with
        auth := AuthState.fromConfig rootConfig [7]
        edr := true } bearer) = _)
  rcases request_user_declared rootCrypto_signs firstAgent_unforged moment rfl rfl runs with
    ⟨past, then_, username, password, login, _⟩
  exact ⟨_, _, past, then_, username, password, moment, login⟩

end Api
end Sigil
