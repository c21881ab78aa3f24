import Sigil.Api.ConfigExt
import Sigil.Core.Slices

namespace Sigil
namespace Api

/-!
# What a redacted configuration shows

A file is described by a marked text, in which every secret is a mark, and the reader takes
what is written in the place of a mark as the value of the secret.  As long as the secrets
are found just where the marks are, one after another, the redacted text is the marked text
with the placeholders written out, and the reader finds these.  The text then says nothing
about the secrets.
-/

open Sigil.Core Library

/-! ## The slots of the fields -/

theorem Config.isSome_jwtSecret (cfg : Config) :
    trim cfg.auth.jwtSecret ≠ "" → (some cfg.auth.jwtSecret).isSome = true :=
  fun _ => rfl

def Config.jwtSlot (cfg : Config) : Slot where
  placeholder := jwtPh
  hidden := trim cfg.auth.jwtSecret
  value := some cfg.auth.jwtSecret
  hasValue := cfg.isSome_jwtSecret

def UserConfig.hashSlot (u : UserConfig) : Slot :=
  .ofSecret (userHashPh u.username) u.passwordHash

def UserConfig.passwordSlot (u : UserConfig) : Slot :=
  .ofSecret (userPwPh u.username) u.password

def tokenSlot (t : String × Nat) : Slot :=
  .ofSecret (tokenPh t.2) (some t.1)

theorem Config.slots_eq (cfg : Config) :
    cfg.slots = cfg.jwtSlot ::
      (cfg.auth.users.flatMap (fun u => [u.hashSlot, u.passwordSlot]) ++
        cfg.edr.enrollmentTokens.zipIdx.map tokenSlot) :=
  rfl

/-- The other configuration has the text of the slot in the place of every secret that is not
empty. -/
structure Config.Shows (cfg : Config) (write : Slot → String) (shown : Config) : Prop where
  jwtSecret : cfg.auth.jwtSecret ≠ "" → shown.auth.jwtSecret = write cfg.jwtSlot
  users : ∀ (i : Nat) (u : UserConfig), cfg.auth.users[i]? = some u →
    ∃ v : UserConfig, shown.auth.users[i]? = some v ∧
    (∀ h, u.passwordHash = some h → h ≠ "" → v.passwordHash = some (write u.hashSlot)) ∧
    ∀ p, u.password = some p → p ≠ "" → v.password = some (write u.passwordSlot)
  enrollmentTokens : ∀ i t, cfg.edr.enrollmentTokens[i]? = some t → t ≠ "" →
    shown.edr.enrollmentTokens[i]? = some (write (tokenSlot (t, i)))

/-! ## Marked files -/

/-- A text with marks for secrets. -/
abbrev MarkedText := List (Char ⊕ Slot)

/-- The text with something written in the place of each mark. -/
def MarkedText.written (m : MarkedText) (write : Slot → String) : String :=
  String.ofList (Masking.render (fun slot => (write slot).toList) m)

/-- The text without what the placeholders hide. -/
def MarkedText.masked (m : MarkedText) : List (Char ⊕ String) :=
  m.map (Sum.map id Slot.placeholder)

/-- The slots that hide something. -/
def Config.filled (cfg : Config) : List Slot :=
  cfg.slots.filter fun slot => slot.hidden ≠ ""

/-- The marks stand for the secrets: whatever the scalar of each can hold is read as the secret
when it is written in the place of its marks. -/
def Layout (parse : String → Option Config) (Holds : Slot → String → Prop) (cfg : Config)
    (m : MarkedText) : Prop :=
  ∀ write : Slot → String, (∀ slot, slot ∈ cfg.filled → Holds slot (write slot)) →
    ∃ shown, parse (m.written write) = some shown ∧ cfg.Shows write shown

/-- The secrets of the file as they are found, one after another, in the text that is not a
placeholder. -/
def Config.marked (cfg : Config) (yaml : String) : MarkedText :=
  (cfg.slots.map Masking.Pass.hide).foldl (Masking.Pass.mark slotSecrets) (yaml.toList.map Sum.inl)

/-- The passes find the secrets just at the marks: every pass finds its secret in the text of
the file only, in no stretch that touches a placeholder, and puts a mark there. -/
structure Config.Hides (cfg : Config) (yaml : String) (m : MarkedText) : Prop where
  apart : TransitionSystem.Along (Masking.Pass.next slotSecrets)
    (fun before pass _ => pass.Fits slotSecrets before) (yaml.toList.map Sum.inl)
    (cfg.slots.map .hide)
  marked : cfg.marked yaml = m

/-- The redacted text is the marked one with the placeholders. -/
theorem Config.Hides.redactYaml {cfg : Config} {yaml : String} {m : MarkedText}
    (hides : cfg.Hides yaml m) : redactYaml yaml cfg = m.written Slot.placeholder := by
  apply String.toList_injective
  have passes := Masking.foldl_run_mark hides.apart
  rw [Masking.render_plain] at passes
  rw [redactYaml_eq, toList_foldl toList_redact, MarkedText.written, String.toList_ofList, passes,
    ← hides.marked]
  rfl

theorem MarkedText.written_masked (m : MarkedText) :
    m.written Slot.placeholder =
      String.ofList (m.masked.flatMap (Sum.elim (fun c => [c]) String.toList)) := by
  rw [written, Masking.render, masked, List.flatMap_map]
  congr 2
  funext x
  cases x <;> rfl

/-- When the secrets are found just where the reader takes them from, the redacted text is
read with the placeholders in their places, and it is the same for all secrets. -/
theorem redactYaml_shows (parse : String → Option Config) (Holds : Slot → String → Prop)
    (cfg : Config) (yaml : String) (m : MarkedText) (layout : Layout parse Holds cfg m)
    (placeholders : ∀ slot, slot ∈ cfg.filled → Holds slot slot.placeholder)
    (hides : cfg.Hides yaml m) :
    (∃ shown, parse (redactYaml yaml cfg) = some shown ∧ cfg.Shows Slot.placeholder shown) ∧
      ∀ (other : Config) (text : String) (n : MarkedText), other.Hides text n →
        n.masked = m.masked → redactYaml text other = redactYaml yaml cfg := by
  rw [hides.redactYaml]
  refine ⟨layout Slot.placeholder placeholders, fun other text n otherHides same => ?_⟩
  rw [otherHides.redactYaml, n.written_masked, m.written_masked, same]

/-! ## Files with tokens -/

/-- A configuration with enrollment tokens only. -/
def withTokens (tokens : List String) : Config where
  edr := { enrollmentTokens := tokens }

/-- Its file, with one token in each line. -/
def tokenText (tokens : List String) : String :=
  String.ofList ("edr:".toList ++
    ("  enrollment_tokens:" :: tokens.map ("    - " ++ ·)).flatMap fun line => '\n' :: line.toList)

/-- Read files of this form. -/
def readTokens (text : String) : Option Config :=
  match splitChar '\n' text with
  | "edr:" :: "  enrollment_tokens:" :: lines => (lines.mapM (stripPrefix "    - ")).map withTokens
  | _ => none

/-- Texts in angle brackets that a scalar holds as they are. -/
def Bracketed (s : String) : Prop :=
  s.toList.head? = some '<' ∧ s.toList.getLast? = some '>' ∧
    ∀ c, c ∈ s.toList → c.isAlphanum = true ∨ c ∈ ['<', '>', ':', '_']

instance (s : String) : Decidable (Bracketed s) :=
  inferInstanceAs (Decidable (_ ∧ _))

theorem Bracketed.oneLine {s : String} (bracketed : Bracketed s) : '\n' ∉ s.toList := by
  intro member
  exact absurd (bracketed.2.2 _ member) (by decide)

theorem readTokens_tokenText {tokens : List String}
    (plain : ∀ t, t ∈ tokens → '\n' ∉ t.toList) :
    readTokens (tokenText tokens) = some (withTokens tokens) := by
  have lines : splitChar '\n' (tokenText tokens) =
      "edr:" :: "  enrollment_tokens:" :: tokens.map ("    - " ++ ·) := by
    apply splitChar_joined
    intro line member
    rcases List.mem_cons.mp member with rfl | member
    · decide
    rcases List.mem_cons.mp member with rfl | member
    · decide
    rcases List.mem_map.mp member with ⟨t, isToken, rfl⟩
    rw [String.toList_append, List.mem_append, not_or]
    exact ⟨by decide, plain t isToken⟩
  have stripped : (tokens.map ("    - " ++ ·)).mapM (stripPrefix "    - ") = some tokens := by
    rw [List.mapM_map]
    clear plain lines
    induction tokens with
    | nil => rfl
    | cons t tokens inductionHypothesis =>
        rw [List.mapM_cons, inductionHypothesis, Function.comp_apply, stripPrefix_append]
        rfl
  rw [readTokens, lines]
  exact congrArg (Option.map withTokens) stripped

/-- The file with marks for the tokens. -/
def tokenMarks (tokens : List String) : MarkedText :=
  "edr:\n  enrollment_tokens:".toList.map Sum.inl ++
    tokens.zipIdx.flatMap fun t => "\n    - ".toList.map Sum.inl ++ [Sum.inr (tokenSlot t)]

theorem written_tokenMarks (tokens : List String) (write : Slot → String) :
    (tokenMarks tokens).written write =
      tokenText (tokens.zipIdx.map fun t => write (tokenSlot t)) := by
  have header : "edr:\n  enrollment_tokens:".toList =
      "edr:".toList ++ '\n' :: "  enrollment_tokens:".toList := by
    decide +kernel
  have item : ∀ s : String, "\n    - ".toList ++ s.toList = '\n' :: ("    - " ++ s).toList := by
    intro s
    rw [String.toList_append]
    rfl
  have marks := Masking.render_marks (fun slot => (write slot).toList)
    "edr:\n  enrollment_tokens:".toList "\n    - ".toList tokenSlot tokens.zipIdx
  refine congrArg String.ofList (marks.trans ?_)
  rw [header]
  simp only [item, List.append_assoc, List.cons_append, List.flatMap_cons, List.flatMap_map]

/-- The reader takes what is written in the place of the marks as the tokens. -/
theorem layout_tokenMarks {tokens : List String} (some_ : ∀ t ∈ tokens, t ≠ "") :
    Layout readTokens (fun _ => Bracketed) (withTokens tokens) (tokenMarks tokens) := by
  intro write holds
  have plain :
      ∀ t, t ∈ tokens.zipIdx.map (fun t => write (tokenSlot t)) → '\n' ∉ t.toList := by
    intro s member
    rcases List.mem_map.mp member with ⟨t, isToken, rfl⟩
    refine (holds (tokenSlot t) (List.mem_filter.mpr ⟨?_, decide_eq_true ?_⟩)).oneLine
    · rw [Config.slots_eq]
      exact List.mem_cons_of_mem _ (List.mem_append_right _ (List.mem_map_of_mem isToken))
    · exact some_ t.1 (List.fst_mem_of_mem_zipIdx isToken)
  rw [written_tokenMarks, readTokens_tokenText plain]
  refine ⟨_, rfl, fun absent => absurd rfl absent, fun i u user => ?_,
    fun i t token present => ?_⟩
  · cases user
  · change (tokens.zipIdx.map fun t => write (tokenSlot t))[i]? = _
    rw [List.getElem?_map, List.getElem?_zipIdx]
    change tokens[i]? = some t at token
    rw [token, Nat.zero_add]
    rfl

def twoTokens : List String :=
  ["alpha-1", "bravo-2"]

theorem redactYaml_shows_twoTokens :
    (∃ shown, readTokens (redactYaml (tokenText twoTokens)
      (withTokens twoTokens)) = some shown ∧
        (withTokens twoTokens).Shows Slot.placeholder shown) ∧
      ∀ (other : Config) (text : String) (n : MarkedText), other.Hides text n →
        n.masked = (tokenMarks twoTokens).masked →
        redactYaml text other = redactYaml (tokenText twoTokens) (withTokens twoTokens) :=
  redactYaml_shows readTokens _ _ _ _ (layout_tokenMarks (by decide)) (by decide +kernel)
    ⟨by decide +kernel, by decide +kernel⟩

/-- The rest of a token that begins with another one is shown. -/
theorem not_redactYaml_shows :
    ¬ ∀ (cfg : Config) (yaml : String), readTokens yaml = some cfg →
      ∃ shown, readTokens (redactYaml yaml cfg) = some shown ∧
        cfg.Shows Slot.placeholder shown := by
  intro all
  rcases all (withTokens ["abc", "abcdef"]) (tokenText ["abc", "abcdef"])
    (readTokens_tokenText (by decide)) with ⟨shown, parsed, shows⟩
  have redacted : redactYaml (tokenText ["abc", "abcdef"]) (withTokens ["abc", "abcdef"]) =
      tokenText ["<redacted:edr_token:0>", "<redacted:edr_token:0>def"] := by
    apply String.toList_injective
    rw [redactYaml_eq, toList_foldl toList_redact]
    decide +kernel
  rw [redacted, readTokens_tokenText (by decide)] at parsed
  cases parsed
  have second := shows.enrollmentTokens 1 "abcdef" rfl (by decide)
  exact absurd second (by decide +kernel)

end Api
end Sigil
