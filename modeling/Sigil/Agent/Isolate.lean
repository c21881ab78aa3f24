import Sigil.Core.Blanks
import Sigil.Edr.Queue
import Sigil.Library.Addresses

namespace Sigil
namespace Agent

/-!
# Isolating a host

An isolated host reaches only its own loopback, the server that the agent is connected to and
the networks that the command names.  The server is known by the host that is cut out of its
URL.  On Linux the addresses become the rules of an nftables ruleset.
-/

open Sigil.Core Sigil.Library Sigil.Library.Addresses
open Sigil.Edr (Isolate)

/-! ## The allowlist -/

/-- The effective allowlist: loopback, the control host and the networks of the caller. -/
def allowlist (isolate : Option Isolate) (controlHost : String) : List String :=
  let allow := ["127.0.0.1", "::1"]
  let allow := if controlHost = "" then allow else allow ++ [controlHost]
  isolate.elim allow fun iso => allow ++ iso.allowlistCidrs

/-- The parts between the characters that stop a part. -/
def splitAny (stops : Char → Bool) (s : String) : List String :=
  (s.toList.splitOnP stops).map String.ofList

/-- The host of a `scheme://host:port` URL. -/
def hostOnly (url : String) : String :=
  let noScheme := (splitStr "://" url)[1]?.getD url
  (splitAny (fun c => c = '/' || c = ':') noScheme).head?.getD noScheme

theorem mem_allowlist {isolate : Option Isolate} {controlHost entry : String} :
    entry ∈ allowlist isolate controlHost ↔ entry = "127.0.0.1" ∨ entry = "::1" ∨
      (controlHost ≠ "" ∧ entry = controlHost) ∨
      ∃ iso, iso ∈ isolate ∧ entry ∈ iso.allowlistCidrs := by
  cases isolate with
  | none => by_cases blank : controlHost = "" <;> simp [allowlist, blank]
  | some iso => by_cases blank : controlHost = "" <;> simp [allowlist, blank]

/-! ## URLs -/

/-- The characters of a registered name: letters, digits, the other unreserved characters, the
delimiters inside components, and the percent sign of an encoded character. -/
def isRegNameChar (c : Char) : Bool :=
  c.isAlphanum || c ∈ "-._~!$&'()*+,;=%".toList

/-- A registered name. -/
structure RegName where
  chars : List Char
  nonempty : chars ≠ []
  valid : ∀ c, c ∈ chars → isRegNameChar c = true

inductive Host where
  | registered (name : RegName)
  | v4 (ip : IPv4)
  | v6 (ip : IPv6)

namespace Host

/-- The host by itself. -/
def bare : Host → List Char
  | .registered name => name.chars
  | .v4 ip => ip.text
  | .v6 ip => ip.text

/-- The host in a URL: an IPv6 address stands in brackets. -/
def text : Host → List Char
  | .v6 ip => '[' :: ip.text ++ [']']
  | host => host.bare

/-- The host is an IPv6 address. -/
def Bracketed : Host → Prop
  | .v6 _ => True
  | _ => False

end Host

inductive Scheme where
  | http
  | https

def Scheme.text : Scheme → String
  | .http => "http"
  | .https => "https"

/-- The digits of a port. -/
structure Port where
  digits : List Char
  decimal : ∀ c, c ∈ digits → c.isDigit = true

/-- A URL `scheme://host[:port][/path]`. -/
structure ServerUrl where
  scheme : Scheme
  host : Host
  port : Option Port
  path : Option (List Char)

/-- What stands behind the host. -/
def ServerUrl.behind (url : ServerUrl) : List Char :=
  (url.port.elim [] fun port => ':' :: port.digits) ++ url.path.elim [] fun path => '/' :: path

def ServerUrl.text (url : ServerUrl) : String :=
  url.scheme.text ++ ("://" ++ String.ofList (url.host.text ++ url.behind))

/-! ## The host of a URL -/

/-- A character at which the host ends. -/
def ends (c : Char) : Bool :=
  c = '/' || c = ':'

theorem head?_splitOnP (stops : Char → Bool) (text : List Char) :
    (text.splitOnP stops).head? = some (text.takeWhile fun c => !stops c) := by
  induction text with
  | nil => rfl
  | cons c text inductionHypothesis =>
      rw [List.splitOnP_cons_eq_if_modifyHead]
      by_cases stop : stops c = true
      · simp [stop]
      · rw [if_neg stop, List.head?_modifyHead, inductionHypothesis, List.takeWhile_cons,
          if_pos (by simpa using stop)]
        rfl

/-- What is taken does not depend on what stands behind a stop. -/
theorem takeWhile_append_of_stop {stops : Char → Bool} {rest : List Char}
    (stop : ∀ c, c ∈ rest.head? → stops c = true) (text : List Char) :
    (text ++ rest).takeWhile (fun c => !stops c) = text.takeWhile fun c => !stops c := by
  induction text with
  | nil =>
      cases rest with
      | nil => rfl
      | cons c rest => simp [stop c rfl]
  | cons c text inductionHypothesis =>
      rw [List.cons_append, List.takeWhile_cons, List.takeWhile_cons, inductionHypothesis]

/-- Of what follows the scheme, the text up to the first slash or colon is taken. -/
theorem hostOnly_append {scheme : String} (plain : ':' ∉ scheme.toList) (rest : String) :
    hostOnly (scheme ++ ("://" ++ rest)) =
      String.ofList (rest.toList.takeWhile fun c => !ends c) := by
  have shape : "://".toList = ':' :: ['/', '/'] := rfl
  have size : (scheme ++ ("://" ++ rest)).toList.length + 1 =
      (scheme.toList.length + rest.toList.length + 2) + 2 := by
    rw [String.toList_append, String.toList_append, shape, List.length_append, List.length_append]
    simp only [List.length_cons, List.length_nil]
    omega
  rcases splitn_succ (scheme.toList.length + rest.toList.length + 2) "://" rest with
    ⟨part, parts, tail, split, equal, next⟩
  have second : (splitStr "://" (scheme ++ ("://" ++ rest)))[1]? = some part := by
    rw [splitStr, size, splitn_append shape plain, split]
    rfl
  -- The part ends with the text or in front of a colon, so it has the same host.
  have sameHost : part.toList.takeWhile (fun c => !ends c) =
      rest.toList.takeWhile fun c => !ends c := by
    rw [equal, String.toList_append]
    symm
    apply takeWhile_append_of_stop
    rintro c start
    rcases next with rfl | ⟨more, rfl⟩
    · cases start
    · rw [String.toList_append, shape] at start
      cases start
      rfl
  have cut : hostOnly (scheme ++ ("://" ++ rest)) =
      ((splitAny ends part).head?).getD part := by
    rw [hostOnly, second]
    rfl
  rw [cut, splitAny, List.head?_map, head?_splitOnP, sameHost]
  rfl

namespace ServerUrl

variable (url : ServerUrl)

theorem behind_head : ∀ c, c ∈ url.behind.head? → ends c = true := by
  rcases url with ⟨scheme, host, port, path⟩
  intro c start
  cases port with
  | none =>
      cases path with
      | none => cases start
      | some path =>
          cases start
          rfl
  | some port =>
      cases start
      rfl

theorem hostOnly_text :
    hostOnly url.text = String.ofList (url.host.text.takeWhile fun c => !ends c) := by
  have plain : ':' ∉ url.scheme.text.toList := by
    cases url.scheme <;> decide
  rw [text, hostOnly_append plain, String.toList_ofList, takeWhile_append_of_stop url.behind_head]

end ServerUrl

theorem takeWhile_eq_self {stops : Char → Bool} {text : List Char}
    (plain : ∀ c, c ∈ text → stops c = false) :
    (text.takeWhile fun c => !stops c) = text := by
  apply List.takeWhile_eq_self_iff.mpr
  intro c member
  rw [plain c member]
  rfl

theorem ends_cases {c : Char} (stop : ends c = true) : c = '/' ∨ c = ':' := by
  rw [ends, Bool.or_eq_true, decide_eq_true_eq, decide_eq_true_eq] at stop
  exact stop

/-- No host ends inside, unless it is an IPv6 address. -/
theorem Host.ends_bare {host : Host} (unbracketed : ¬ host.Bracketed) {c : Char}
    (member : c ∈ host.bare) : ends c = false := by
  apply Bool.eq_false_iff.mpr
  intro stop
  cases host with
  | registered name =>
      have valid := name.valid c member
      rcases ends_cases stop with rfl | rfl
      · exact absurd valid (by decide)
      · exact absurd valid (by decide)
  | v4 ip =>
      have plain := IPv4.mem_text member
      rcases ends_cases stop with rfl | rfl
      · exact absurd plain (by decide)
      · exact absurd plain (by decide)
  | v6 ip => exact unbracketed trivial

theorem Host.bare_ne_nil (host : Host) : host.bare ≠ [] := by
  cases host with
  | registered name => exact name.nonempty
  | v4 ip => exact List.ne_nil_of_mem ip.point_mem
  | v6 ip => exact List.ne_nil_of_mem ip.colon_mem

theorem Host.text_eq_bare {host : Host} (unbracketed : ¬ host.Bracketed) :
    host.text = host.bare := by
  cases host with
  | registered | v4 => rfl
  | v6 ip => exact absurd trivial unbracketed

/-- A host that is no IPv6 address is found as it is. -/
theorem hostOnly_of_not_bracketed {url : ServerUrl} (unbracketed : ¬ url.host.Bracketed) :
    hostOnly url.text = String.ofList url.host.bare := by
  rw [url.hostOnly_text, Host.text_eq_bare unbracketed,
    takeWhile_eq_self fun c => Host.ends_bare unbracketed]

/-- Of a bracketed address only the front is taken, with the bracket. -/
theorem hostOnly_of_bracketed {url : ServerUrl} (bracketed : url.host.Bracketed) :
    '[' ∈ (hostOnly url.text).toList ∧ '[' ∉ url.host.bare ∧ ':' ∈ url.host.bare := by
  rw [url.hostOnly_text, String.toList_ofList]
  cases host : url.host with
  | registered | v4 =>
      rw [host] at bracketed
      exact bracketed.elim
  | v6 ip =>
      refine ⟨List.mem_cons_self, fun member => ?_, ip.colon_mem⟩
      exact absurd (IPv6.mem_text member) (by decide)

/-- The server stays reachable exactly if its host is no IPv6 address, or is allowed anyhow. -/
theorem allowlist_host_iff (url : ServerUrl) (isolate : Option Isolate) :
    (hostOnly url.text = String.ofList url.host.bare ↔ ¬ url.host.Bracketed) ∧
      (String.ofList url.host.bare ∈ allowlist isolate (hostOnly url.text) ↔
        ¬ url.host.Bracketed ∨ String.ofList url.host.bare = "::1" ∨
          ∃ iso, iso ∈ isolate ∧ String.ofList url.host.bare ∈ iso.allowlistCidrs) := by
  by_cases bracketed : url.host.Bracketed
  · rcases hostOnly_of_bracketed bracketed with ⟨bracket, noBracket, colon⟩
    have differs : String.ofList url.host.bare ≠ hostOnly url.text := by
      intro same
      rw [← same, String.toList_ofList] at bracket
      exact noBracket bracket
    have notLoopback : String.ofList url.host.bare ≠ "127.0.0.1" := by
      intro same
      rw [← String.toList_ofList (l := url.host.bare), same] at colon
      exact absurd colon (by decide)
    rw [mem_allowlist]
    simp [bracketed, differs, Ne.symm differs, notLoopback]
  · have found := hostOnly_of_not_bracketed bracketed
    have nonempty : String.ofList url.host.bare ≠ "" := by
      intro blank
      exact url.host.bare_ne_nil (String.ofList_eq_empty_iff.mp blank)
    rw [mem_allowlist, found]
    simp [bracketed, nonempty]

/-- Groups of an IPv6 address that are written with these digits. -/
def hexGroup (digits : List Char) (size : 1 ≤ digits.length ∧ digits.length ≤ 4 := by decide)
    (hex : ∀ c, c ∈ digits → isHexDigit c = true := by decide) : HexGroup :=
  ⟨digits, size, hex⟩

/-- The URL `https://[2001:db8::1]:7443`. -/
def bracketedUrl : ServerUrl where
  scheme := .https
  host := .v6 (.compressed [hexGroup ['2', '0', '0', '1'], hexGroup ['d', 'b', '8']]
    { groups := [hexGroup ['1']] } (by decide))
  port := some ⟨['7', '4', '4', '3'], by decide⟩
  path := none

/-- A server that is reached under an IPv6 address is cut off. -/
theorem not_allowlist_host :
    ¬ ∀ (url : ServerUrl) (isolate : Option Isolate),
      String.ofList url.host.bare ∈ allowlist isolate (hostOnly url.text) := by
  intro always
  have found := always bracketedUrl (some { allowlistCidrs := ["10.0.0.0/8"] })
  exact absurd found (by decide +kernel)

/-! ## The nftables ruleset -/

def rulesetHead : String :=
  "table inet sigil_isolate \x7b\n  chain output \x7b\n" ++
    "    type filter hook output priority 0; policy drop;\n" ++
    "    ct state established,related accept\n    oifname \"lo\" accept\n"

def rule (a : String) : String :=
  "    ip daddr " ++ a ++ " accept\n"

def ruleset (allow : List String) : String :=
  allow.foldl (fun ruleset a => ruleset ++ rule a) rulesetHead ++ "  \x7d\n\x7d\n"

/-- How a run of `nft` ends. -/
inductive NftResult where
  | spawnError (e : String)
  | exited (status : String) (success : Bool)
  | waitError (e : String)

def apply (nft : String → NftResult) (allow : List String) : Bool × String :=
  match nft (ruleset allow) with
  | .spawnError e => (false, "spawn nft: " ++ e)
  | .exited _ true => (true, "host isolated (allow: " ++ ", ".intercalate allow ++ ")")
  | .exited status false => (false, "nft exited " ++ status)
  | .waitError e => (false, "nft wait: " ++ e)

/-- Apply host isolation. -/
def isolate (nft : String → NftResult) (iso : Option Isolate) (controlHost : String) :
    Bool × String :=
  apply nft (allowlist iso controlHost)

/-! ## Reading a ruleset -/

/-- A rule that accepts what is sent to an address, with the keyword of its family. -/
structure AcceptRule where
  family : String
  operand : String
  deriving DecidableEq, Repr

def readRule (line : String) : Option AcceptRule :=
  match splitWhitespace line with
  | [family, keyword, operand, verdict] =>
      if keyword = "daddr" ∧ verdict = "accept" then some ⟨family, operand⟩ else none
  | _ => none

/-- The rules of a ruleset that accept an address. -/
def acceptRules (text : String) : List AcceptRule :=
  (splitChar '\n' text).filterMap readRule

/-- The keyword `ip` stands before an IPv4 address or network, `ip6` before an IPv6 one. -/
inductive AcceptRule.WellTyped : AcceptRule → Prop where
  | ip (ip : IPv4) (length : Option (Fin 33)) :
      WellTyped ⟨"ip", String.ofList (Network.v4 ip length).text⟩
  | ip6 (ip : IPv6) (length : Option (Fin 129)) :
      WellTyped ⟨"ip6", String.ofList (Network.v6 ip length).text⟩

/-- A ruleset has one rule for each address, and nft can load it. -/
structure WellTyped (allow : List String) (text : String) : Prop where
  operands : (acceptRules text).map AcceptRule.operand = allow
  families : ∀ rule, rule ∈ acceptRules text → rule.WellTyped

theorem acceptRules_line {line : String} (plain : '\n' ∉ line.toList) (rest : String) :
    acceptRules (line ++ ("\n" ++ rest)) = (readRule line).toList ++ acceptRules rest := by
  have cut : splitChar '\n' (line ++ ("\n" ++ rest)) = line :: splitChar '\n' rest :=
    splitChar_cons plain rest
  rw [acceptRules, cut, List.filterMap_cons]
  cases readRule line <;> rfl

/-- A text that is one word. -/
def OneWord (a : String) : Prop :=
  a.toList ≠ [] ∧ ∀ c, c ∈ a.toList → isWhitespace c = false

instance (a : String) : Decidable (OneWord a) :=
  inferInstanceAs (Decidable (_ ∧ _))

theorem readRule_rule {a : String} (word : OneWord a) :
    readRule ("    ip daddr " ++ a ++ " accept") = some ⟨"ip", a⟩ := by
  have some_ : a ≠ "" := by
    rintro rfl
    exact word.1 rfl
  have text : "    ip daddr " ++ a ++ " accept" =
      "    " ++ ("ip" ++ (" " ++ ("daddr" ++ (" " ++ (a ++ (" " ++ "accept")))))) := by
    apply String.toList_injective
    simp
  have words :
      splitWhitespace ("    ip daddr " ++ a ++ " accept") = ["ip", "daddr", a, "accept"] := by
    rw [text, splitWhitespace_blank (by decide), splitWhitespace_word (by decide) (by decide),
      splitWhitespace_word (by decide) (by decide), splitWhitespace_word some_ word.2,
      splitWhitespace_plain (by decide) (by decide)]
  rw [readRule, words]
  exact if_pos ⟨rfl, rfl⟩

/-- What stands behind the head of a ruleset. -/
def rulesetTail : List String → String
  | [] => "  \x7d\n\x7d\n"
  | a :: allow => rule a ++ rulesetTail allow

theorem ruleset_eq (allow : List String) : ruleset allow = rulesetHead ++ rulesetTail allow := by
  have pushed : ∀ start : String, allow.foldl (fun ruleset a => ruleset ++ rule a) start ++
      "  \x7d\n\x7d\n" = start ++ rulesetTail allow := by
    induction allow with
    | nil => exact fun _ => rfl
    | cons a allow inductionHypothesis =>
        intro start
        rw [List.foldl_cons, inductionHypothesis, rulesetTail, String.append_assoc]
  exact pushed rulesetHead

theorem acceptRules_rulesetTail {allow : List String} (words : ∀ a, a ∈ allow → OneWord a) :
    acceptRules (rulesetTail allow) = allow.map (AcceptRule.mk "ip") := by
  induction allow with
  | nil => decide +kernel
  | cons a allow inductionHypothesis =>
      rcases List.forall_mem_cons.mp words with ⟨word, words⟩
      have line : rule a = "    ip daddr " ++ a ++ " accept" ++ "\n" := by
        show "    ip daddr " ++ a ++ " accept\n" = "    ip daddr " ++ a ++ " accept" ++ "\n"
        apply String.toList_injective
        simp
      have noBreak : '\n' ∉ ("    ip daddr " ++ a ++ " accept").toList := by
        rw [String.toList_append, String.toList_append]
        intro member
        rcases List.mem_append.mp member with member | member
        · rcases List.mem_append.mp member with member | member
          · exact absurd member (by decide)
          · exact absurd (word.2 '\n' member) (by decide)
        · exact absurd member (by decide)
      rw [rulesetTail, line, String.append_assoc, acceptRules_line noBreak, readRule_rule word,
        inductionHypothesis words]
      rfl

/-- The rules of a ruleset are those of its addresses, all with the keyword `ip`. -/
theorem acceptRules_ruleset {allow : List String} (words : ∀ a, a ∈ allow → OneWord a) :
    acceptRules (ruleset allow) = allow.map (AcceptRule.mk "ip") := by
  have head :
      rulesetHead = "table inet sigil_isolate \x7b" ++ ("\n" ++ ("  chain output \x7b" ++ ("\n" ++
      ("    type filter hook output priority 0; policy drop;" ++ ("\n" ++
        ("    ct state established,related accept" ++ ("\n" ++
          ("    oifname \"lo\" accept" ++ "\n")))))))) := by
    decide +kernel
  rw [ruleset_eq, head]
  simp only [String.append_assoc]
  rw [acceptRules_line (by decide), acceptRules_line (by decide), acceptRules_line (by decide),
    acceptRules_line (by decide), acceptRules_line (by decide), acceptRules_rulesetTail words]
  have noRules : readRule "table inet sigil_isolate \x7b" = none ∧
      readRule "  chain output \x7b" = none ∧
      readRule "    type filter hook output priority 0; policy drop;" = none ∧
      readRule "    ct state established,related accept" = none ∧
      readRule "    oifname \"lo\" accept" = none := by
    decide +kernel
  rcases noRules with ⟨first, second, third, fourth, fifth⟩
  rw [first, second, third, fourth, fifth]
  rfl

/-! ## Commands with addresses -/

theorem oneWord_network (network : Network) : OneWord (String.ofList network.text) := by
  rw [OneWord, String.toList_ofList]
  refine ⟨network.text_ne_nil, fun c member => ?_⟩
  rcases Network.mem_text member with hex | rfl | rfl | rfl
  · exact isWhitespace_of_isHexDigit hex
  · rfl
  · rfl
  · rfl

/-- The command that allows some addresses and networks. -/
def isolateOf (networks : List Network) : Isolate where
  allowlistCidrs := networks.map fun network => String.ofList network.text

theorem oneWord_allowlist (iso : Option (List Network)) (host : Address) :
    ∀ a, a ∈ allowlist (iso.map isolateOf) (String.ofList host.text) → OneWord a := by
  intro a member
  rcases mem_allowlist.mp member with rfl | rfl | ⟨-, rfl⟩ | ⟨command, isCommand, listed⟩
  · decide
  · decide
  · exact host.text_network ▸ oneWord_network host.network
  · rcases Option.map_eq_some_iff.mp isCommand with ⟨networks, -, rfl⟩
    rcases List.mem_map.mp listed with ⟨network, -, rfl⟩
    exact oneWord_network network

/-- A rule with the keyword `ip` is not well typed before an operand with a colon. -/
theorem AcceptRule.WellTyped.noColon {rule : AcceptRule} (wellTyped : rule.WellTyped)
    (isIp : rule.family = "ip") : ':' ∉ rule.operand.toList := by
  cases wellTyped with
  | ip ip length =>
      rw [String.toList_ofList]
      exact Network.noColon ip length
  | ip6 ip length => exact absurd isIp (show "ip6" ≠ "ip" by decide)

/-- The rule for the IPv6 loopback is never well typed. -/
theorem loopback_illTyped (iso : Option (List Network)) (host : Address) :
    ¬ WellTyped (allowlist (iso.map isolateOf) (String.ofList host.text))
      (ruleset (allowlist (iso.map isolateOf) (String.ofList host.text))) := by
  intro wellTyped
  have loopback : "::1" ∈ allowlist (iso.map isolateOf) (String.ofList host.text) :=
    mem_allowlist.mpr (Or.inr (Or.inl rfl))
  have isRule : ⟨"ip", "::1"⟩ ∈ acceptRules
      (ruleset (allowlist (iso.map isolateOf) (String.ofList host.text))) := by
    rw [acceptRules_ruleset (oneWord_allowlist iso host)]
    exact List.mem_map_of_mem loopback
  exact (wellTyped.families _ isRule).noColon rfl (by decide)

/-- The ruleset has a rule for each address, and is never well typed. -/
theorem ruleset_not_wellTyped (iso : Option (List Network)) (host : Address) :
    (acceptRules (ruleset (allowlist (iso.map isolateOf) (String.ofList host.text)))).map
        AcceptRule.operand = allowlist (iso.map isolateOf) (String.ofList host.text) ∧
      ¬ WellTyped (allowlist (iso.map isolateOf) (String.ofList host.text))
        (ruleset (allowlist (iso.map isolateOf) (String.ofList host.text))) := by
  refine ⟨?_, loopback_illTyped iso host⟩
  rw [acceptRules_ruleset (oneWord_allowlist iso host), List.map_map]
  exact List.map_id _

/-- The address `10.0.0.1`. -/
def controlAddress : Address :=
  .v4 ⟨[10, 0, 0, 1], rfl⟩

theorem not_ruleset_wellTyped :
    ¬ ∀ (iso : Option (List Network)) (host : Address),
      WellTyped (allowlist (iso.map isolateOf) (String.ofList host.text))
        (ruleset (allowlist (iso.map isolateOf) (String.ofList host.text))) := by
  intro always
  exact loopback_illTyped none controlAddress (always none controlAddress)

/-- Where nft rejects a ruleset that is not well typed, no host is isolated. -/
theorem isolate_fails {nft : String → NftResult}
    (rejects : ∀ allow status, nft (ruleset allow) = .exited status true →
      WellTyped allow (ruleset allow)) (iso : Option (List Network)) (host : Address) :
    (isolate nft (iso.map isolateOf) (String.ofList host.text)).1 = false := by
  rw [isolate, apply]
  split
  · rfl
  · next status loaded => exact absurd (rejects _ status loaded) (loopback_illTyped iso host)
  · rfl
  · rfl

end Agent
end Sigil
