import Mathlib.Data.List.AList
import Sigil.Api.Auth
import Sigil.Config.Settings
import Sigil.Core.Slices
import Sigil.Core.Utf8

namespace Sigil
namespace Api

/-!
# Authentication

A login hands out a signed token that names the user and its roles; every other request runs as
whoever its token names.  Tokens are not kept anywhere: what is signed with the secret of the
process is accepted until it has expired.
-/

open Sigil.Core

namespace Role

def parse (s : String) : Option Role :=
  match toAsciiLowercase s with
  | "viewer" => some .viewer
  | "analyst" => some .analyst
  | "admin" => some .admin
  | _ => none

def asStr : Role → String
  | .viewer => "viewer"
  | .analyst => "analyst"
  | .admin => "admin"

theorem parse_asStr (role : Role) : parse role.asStr = some role := by
  cases role <;> decide

end Role

/-- The implicit principal when authentication is disabled. -/
def AuthUser.system : AuthUser where
  username := "system"
  roles := [.admin]

/-- The body of a token. -/
structure Claims where
  sub : String
  roles : List String
  exp : UInt64
  deriving DecidableEq

structure UserCred where
  passwordHash : Option String
  password : Option String
  roles : List Role

/-- The libraries for passwords and for signed tokens; reading a token back takes the time. -/
structure Crypto where
  verifyPassword : String → String → Bool
  encode : List UInt8 → Claims → Except String String
  decode : List UInt8 → UInt64 → String → Option Claims

/-- What is signed with a secret is read back with it, until 60 seconds after the expiry. -/
def Crypto.Signs (crypto : Crypto) : Prop :=
  ∀ {secret : List UInt8} {claims : Claims} {token : String} (now : UInt64),
    crypto.encode secret claims = .ok token →
      crypto.decode secret now token =
        if now.toNat ≤ claims.exp.toNat + 60 then some claims else none

/-- Compare in a time that does not depend on where the bytes differ. -/
def constantTimeEq (a b : List UInt8) : Bool :=
  if a.length ≠ b.length then false
  else (a.zip b).foldl (fun diff pair => diff ||| (pair.1 ^^^ pair.2)) 0 = 0

theorem constantTimeEq_iff (a b : List UInt8) : constantTimeEq a b = true ↔ a = b := by
  have folded : ∀ (pairs : List (UInt8 × UInt8)) (diff : UInt8),
      pairs.foldl (fun diff pair => diff ||| (pair.1 ^^^ pair.2)) diff = 0 ↔
        diff = 0 ∧ ∀ pair, pair ∈ pairs → pair.1 = pair.2 := by
    intro pairs
    induction pairs with
    | nil => exact fun diff => ⟨fun zero => ⟨zero, by simp⟩, And.left⟩
    | cons pair pairs inductionHypothesis =>
        intro diff
        rw [List.foldl_cons, inductionHypothesis, UInt8.or_eq_zero_iff, UInt8.xor_eq_zero_iff,
          List.forall_mem_cons, and_assoc]
  rw [constantTimeEq]
  by_cases sameLength : a.length = b.length
  · rw [if_neg (not_not_intro sameLength), decide_eq_true_eq, folded]
    constructor
    · rintro ⟨_, equal⟩
      refine List.ext_getElem sameLength fun index first second => ?_
      have member : (a[index], b[index]) ∈ a.zip b := by
        rw [← List.getElem_zip (h := by rw [List.length_zip]; omega)]
        exact List.getElem_mem _
      exact equal _ member
    · rintro rfl
      refine ⟨rfl, fun pair member => ?_⟩
      rw [List.zip, List.zipWith_self] at member
      rcases List.mem_map.mp member with ⟨byte, _, rfl⟩
      rfl
  · rw [if_pos sameLength]
    exact iff_of_false Bool.false_ne_true fun equal => sameLength (congrArg List.length equal)

/-- The secret that signs, the lifetime of tokens, and the users. -/
structure AuthState where
  enabled : Bool
  secret : List UInt8
  ttl : UInt64
  users : AList fun _ : String => UserCred

namespace AuthState

/-- An empty secret in the configuration is replaced by a drawn one. -/
def fromConfig (cfg : Config.AuthConfig) (drawn : List UInt8) : AuthState where
  enabled := cfg.enabled
  secret := if (trim cfg.jwtSecret).isEmpty then drawn else utf8Bytes cfg.jwtSecret
  ttl := cfg.tokenTtlSecs
  users := cfg.users.foldl
    (fun users u => users.insert u.username
      { passwordHash := u.passwordHash
        password := u.password
        roles := u.roles.filterMap Role.parse }) ∅

variable (crypto : Crypto) (auth : AuthState)

/-- Verify a password against the user table. -/
def authenticate (username password : String) : Option AuthUser :=
  match auth.users.lookup username with
  | none => none
  | some cred =>
      let ok :=
        match cred.passwordHash, cred.password with
        | some hash, _ => crypto.verifyPassword password hash
        | none, some plain => constantTimeEq (utf8Bytes password) (utf8Bytes plain)
        | none, none => false
      if ok then some { username := username, roles := cred.roles } else none

/-- When a token that is issued now expires. -/
def expiry (now : UInt64) : UInt64 :=
  now + auth.ttl

/-- Mint a signed token for a user. -/
def issue (now : UInt64) (user : AuthUser) : Except String String :=
  crypto.encode auth.secret
    { sub := user.username, roles := user.roles.map Role.asStr, exp := auth.expiry now }

/-- Whom a token names. -/
def verify (now : UInt64) (token : String) : Option AuthUser :=
  (crypto.decode auth.secret now token).map fun claims =>
    { username := claims.sub, roles := claims.roles.filterMap Role.parse }

/-- The answers of the login. -/
inductive LoginResponse where
  | granted (token : String) (expiresIn : UInt64) (user : AuthUser)
  | invalidCredentials
  | signingFailed

def login (now : UInt64) (username password : String) : LoginResponse :=
  match auth.authenticate crypto username password with
  | none => .invalidCredentials
  | some user =>
      match auth.issue crypto now user with
      | .ok token => .granted token auth.ttl user
      | .error _ => .signingFailed

end AuthState

/-- What a request says about who sends it: a header of visible characters, and the query. -/
structure Credentials where
  authorization : Option String
  query : Option String

/-- A token in the header, or else in the query. -/
def extractToken (req : Credentials) : Option String :=
  match req.authorization.bind (stripPrefix "Bearer ") with
  | some t => some (trim t)
  | none => req.query.bind fun query => (splitChar '&' query).findSome? (stripPrefix "token=")

/-- Whom a request runs as; without a result it is refused. -/
def requireAuth (crypto : Crypto) (auth : AuthState) (now : UInt64) (req : Credentials) :
    Option AuthUser :=
  if auth.enabled then (extractToken req).bind (auth.verify crypto now) else some .system

namespace AuthState

variable {crypto : Crypto} {auth later : AuthState} {now : UInt64}
    {username password token : String}
  {user : AuthUser} {expiresIn : UInt64}

theorem login_granted_iff :
    auth.login crypto now username password = .granted token expiresIn user ↔
      auth.authenticate crypto username password = some user ∧
        auth.issue crypto now user = .ok token ∧ expiresIn = auth.ttl := by
  rw [login]
  cases auth.authenticate crypto username password with
  | none => exact iff_of_false (by rintro ⟨⟩) (by rintro ⟨⟨⟩, _⟩)
  | some found =>
      dsimp only
      cases issued : auth.issue crypto now found with
      | error message =>
          refine iff_of_false (by rintro ⟨⟩) ?_
          rintro ⟨same, signed, _⟩
          rw [← Option.some.inj same, issued] at signed
          cases signed
      | ok signed =>
          constructor
          · rintro ⟨⟩
            exact ⟨rfl, issued, rfl⟩
          · rintro ⟨same, again, rfl⟩
            rw [Option.some.inj same, again] at issued
            rw [Option.some.inj same, Except.ok.inj issued]

/-- A process with the same secret takes a token for its user until it has expired. -/
theorem verify_issue (signs : crypto.Signs) (issued : auth.issue crypto now user = .ok token)
    (secret : later.secret = auth.secret) (at_ : UInt64) :
    later.verify crypto at_ token =
      if at_.toNat ≤ (auth.expiry now).toNat + 60 then some user else none := by
  have roles : (user.roles.map Role.asStr).filterMap Role.parse = user.roles := by
    rw [List.filterMap_map, show Role.parse ∘ Role.asStr = some from funext Role.parse_asStr]
    exact List.filterMap_some
  rw [verify, secret, signs at_ issued]
  split
  · rw [Option.map_some, roles]
  · rfl

end AuthState

/-! ## Declared users -/

/-- The user that a declaration describes. -/
def principalOf (u : Config.UserConfig) : AuthUser where
  username := u.username
  roles := u.roles.filterMap Role.parse

/-- The password of a declaration: the one behind the hash, or else the plain one. -/
def Accepts (crypto : Crypto) (u : Config.UserConfig) (password : String) : Prop :=
  match u.passwordHash, u.password with
  | some hash, _ => crypto.verifyPassword password hash = true
  | none, some plain => password = plain
  | none, none => False

theorem utf8Bytes_injective {a b : String} (same : utf8Bytes a = utf8Bytes b) : a = b := by
  rw [← fromUtf8Lossy_utf8Bytes a, same, fromUtf8Lossy_utf8Bytes]

section Table

variable (cred : Config.UserConfig → UserCred) {users : List Config.UserConfig}
  {table : AList fun _ : String => UserCred} {name : String} {found : UserCred}

/-- What is found was in the table or is declared. -/
theorem lookup_insertAll_cases
    (lookup : (users.foldl (fun table u => table.insert u.username (cred u)) table).lookup name =
      some found) :
    table.lookup name = some found ∨ ∃ u ∈ users, u.username = name ∧ cred u = found := by
  induction users generalizing table with
  | nil => exact Or.inl lookup
  | cons u users inductionHypothesis =>
      rcases inductionHypothesis lookup with inserted | ⟨other, member, declared⟩
      · by_cases same : name = u.username
        · subst same
          rw [AList.lookup_insert, Option.some.injEq] at inserted
          exact Or.inr ⟨u, List.mem_cons_self, rfl, inserted⟩
        · rw [AList.lookup_insert_ne same] at inserted
          exact Or.inl inserted
      · exact Or.inr ⟨other, List.mem_cons_of_mem u member, declared⟩

theorem lookup_insertAll_of_notMem (absent : name ∉ users.map Config.UserConfig.username) :
    (users.foldl (fun table u => table.insert u.username (cred u)) table).lookup name =
      table.lookup name := by
  induction users generalizing table with
  | nil => rfl
  | cons u users inductionHypothesis =>
      rw [List.map_cons, List.mem_cons, not_or] at absent
      rw [List.foldl_cons, inductionHypothesis absent.2, AList.lookup_insert_ne absent.1]

/-- Under different names every declaration is found. -/
theorem lookup_insertAll_of_mem (distinct : (users.map Config.UserConfig.username).Nodup)
    {u : Config.UserConfig} (member : u ∈ users) :
    (users.foldl (fun table u => table.insert u.username (cred u)) table).lookup u.username =
      some (cred u) := by
  induction users generalizing table with
  | nil => cases member
  | cons first users inductionHypothesis =>
      rw [List.map_cons, List.nodup_cons] at distinct
      rw [List.foldl_cons]
      rcases List.mem_cons.mp member with rfl | later
      · rw [lookup_insertAll_of_notMem cred distinct.1, AList.lookup_insert]
      · exact inductionHypothesis distinct.2 later

end Table

section Declared

variable {crypto : Crypto} {auth : Config.AuthConfig} {drawn : List UInt8}
  {username password : String} {user : AuthUser}

theorem accepts_iff (u : Config.UserConfig) :
    (match u.passwordHash, u.password with
      | some hash, _ => crypto.verifyPassword password hash
      | none, some plain => constantTimeEq (utf8Bytes password) (utf8Bytes plain)
      | none, none => false) = true ↔ Accepts crypto u password := by
  rw [Accepts]
  cases u.passwordHash with
  | some hash => exact Iff.rfl
  | none =>
      cases u.password with
      | some plain =>
          exact (constantTimeEq_iff _ _).trans ⟨utf8Bytes_injective, congrArg utf8Bytes⟩
      | none => exact iff_of_false Bool.false_ne_true id

/-- Who logs in is declared, with the roles and the password of the declaration. -/
theorem declared_of_authenticate
    (authenticated : (AuthState.fromConfig auth drawn).authenticate crypto username password =
      some user) :
    ∃ u ∈ auth.users, u.username = username ∧ user = principalOf u ∧
      Accepts crypto u password := by
  rw [AuthState.authenticate] at authenticated
  split at authenticated
  · cases authenticated
  · next cred found =>
      rcases lookup_insertAll_cases _ found with ⟨⟨⟩⟩ | ⟨u, member, named, rfl⟩
      rcases Option.ite_none_right_eq_some.mp authenticated with ⟨accepts, same⟩
      cases same
      exact ⟨u, member, named, by rw [principalOf, named], (accepts_iff u).mp accepts⟩

/-- In a well-formed section exactly the declared users log in. -/
theorem authenticate_iff (wellFormed : auth.WellFormed) :
    (AuthState.fromConfig auth drawn).authenticate crypto username password = some user ↔
      ∃ u ∈ auth.users, u.username = username ∧ user = principalOf u ∧
        Accepts crypto u password := by
  refine ⟨declared_of_authenticate, ?_⟩
  rintro ⟨u, member, rfl, rfl, accepts⟩
  have found : (AuthState.fromConfig auth drawn).users.lookup u.username =
      some
        { passwordHash := u.passwordHash
          password := u.password
          roles := u.roles.filterMap Role.parse } :=
    lookup_insertAll_of_mem _ wellFormed.names member
  rw [AuthState.authenticate, found]
  exact if_pos ((accepts_iff u).mpr accepts)

end Declared

end Api
end Sigil
