import Mathlib.Data.List.Basic
import Mathlib.Data.Nat.Digits.Defs

namespace Sigil
namespace Library
namespace Addresses

/-!
# Texts of internet addresses

The texts of IPv4 and IPv6 addresses, and of networks: an address with the length of a prefix.
Every IPv6 text has a colon and no IPv4 text has one, so no text belongs to both families.
-/

/-- A hexadecimal digit, small or capital. -/
def isHexDigit (c : Char) : Bool :=
  c.isDigit || ('a' ≤ c && c ≤ 'f') || ('A' ≤ c && c ≤ 'F')

theorem isHexDigit_cases {c : Char} (hex : isHexDigit c = true) :
    (48 ≤ c.toNat ∧ c.toNat ≤ 57) ∨ (97 ≤ c.toNat ∧ c.toNat ≤ 102) ∨
      (65 ≤ c.toNat ∧ c.toNat ≤ 70) := by
  simp only [isHexDigit, Char.isDigit, Bool.or_eq_true, Bool.and_eq_true, decide_eq_true_eq] at hex
  rcases hex with (⟨low, high⟩ | ⟨low, high⟩) | ⟨low, high⟩
  · exact Or.inl ⟨UInt32.le_iff_toNat_le.mp low, UInt32.le_iff_toNat_le.mp high⟩
  · exact Or.inr (Or.inl ⟨UInt32.le_iff_toNat_le.mp low, UInt32.le_iff_toNat_le.mp high⟩)
  · exact Or.inr (Or.inr ⟨UInt32.le_iff_toNat_le.mp low, UInt32.le_iff_toNat_le.mp high⟩)

structure IPv4 where
  octets : List (Fin 256)
  four : octets.length = 4

/-- Decimal numbers with points between them. -/
def IPv4.text (ip : IPv4) : List Char :=
  ['.'].intercalate (ip.octets.map fun octet => Nat.toDigits 10 octet.val)

/-- Sixteen bits of an IPv6 address. -/
structure HexGroup where
  digits : List Char
  size : 1 ≤ digits.length ∧ digits.length ≤ 4
  hex : ∀ c, c ∈ digits → isHexDigit c = true

/-- Groups, and perhaps an IPv4 address in the place of two more. -/
structure Groups where
  groups : List HexGroup
  last : Option IPv4 := none

def Groups.parts (groups : Groups) : List (List Char) :=
  groups.groups.map HexGroup.digits ++ groups.last.toList.map IPv4.text

/-- How many groups there are, with those that the IPv4 address stands for. -/
def Groups.count (groups : Groups) : Nat :=
  groups.groups.length + 2 * groups.last.toList.length

/-- An IPv6 address as it is written: all eight groups, or a double colon for some of them. -/
inductive IPv6 where
  | whole (groups : Groups) (eight : groups.count = 8)
  | compressed (before : List HexGroup) (after : Groups) (short : before.length + after.count ≤ 7)

def IPv6.text : IPv6 → List Char
  | .whole groups _ => [':'].intercalate groups.parts
  | .compressed before after _ =>
      [':'].intercalate (before.map HexGroup.digits) ++ ':' :: ':' :: [':'].intercalate after.parts

inductive Address where
  | v4 (ip : IPv4)
  | v6 (ip : IPv6)

def Address.text : Address → List Char
  | .v4 ip => ip.text
  | .v6 ip => ip.text

/-- An address, or a network with the length of its prefix. -/
inductive Network where
  | v4 (ip : IPv4) (length : Option (Fin 33))
  | v6 (ip : IPv6) (length : Option (Fin 129))

/-- A slash and the length of the prefix. -/
def prefixText (length : Option Nat) : List Char :=
  length.elim [] fun n => '/' :: Nat.toDigits 10 n

def Network.text : Network → List Char
  | .v4 ip length => ip.text ++ prefixText (length.map Fin.val)
  | .v6 ip length => ip.text ++ prefixText (length.map Fin.val)

def Address.network : Address → Network
  | .v4 ip => .v4 ip none
  | .v6 ip => .v6 ip none

theorem Address.text_network (address : Address) : address.network.text = address.text := by
  cases address with
  | v4 ip => exact List.append_nil _
  | v6 ip => exact List.append_nil _

/-! ## The characters of a text -/

theorem mem_intercalate {α : Type} {stop : α} {parts : List (List α)} {x : α}
    (member : x ∈ [stop].intercalate parts) :
    x = stop ∨ ∃ part, part ∈ parts ∧ x ∈ part := by
  induction parts with
  | nil => exact absurd member List.not_mem_nil
  | cons part parts inductionHypothesis =>
      cases parts with
      | nil =>
          rw [List.intercalate_singleton] at member
          exact Or.inr ⟨part, List.mem_cons_self, member⟩
      | cons next parts =>
          rw [List.intercalate_cons_cons, List.append_assoc] at member
          rcases List.mem_append.mp member with here | later
          · exact Or.inr ⟨part, List.mem_cons_self, here⟩
          · rcases List.mem_cons.mp later with equal | later
            · exact Or.inl equal
            · rcases inductionHypothesis later with equal | ⟨other, isPart, here⟩
              · exact Or.inl equal
              · exact Or.inr ⟨other, List.mem_cons_of_mem _ isPart, here⟩

/-- Between two parts there is a stop. -/
theorem stop_mem_intercalate {α : Type} {stop : α} {parts : List (List α)}
    (several : 2 ≤ parts.length) : stop ∈ [stop].intercalate parts := by
  cases parts with
  | nil => cases several
  | cons first parts =>
      cases parts with
      | nil => exact absurd several (Nat.not_succ_le_self 1)
      | cons second parts =>
          rw [List.intercalate_cons_cons, List.append_assoc]
          exact List.mem_append_right _ List.mem_cons_self

theorem isDigit_of_mem_toDigits {n : Nat} {c : Char} (member : c ∈ Nat.toDigits 10 n) :
    c.isDigit = true :=
  Nat.isDigit_of_mem_toDigits (by decide) (by decide) member

namespace IPv4

variable {ip : IPv4} {c : Char}

theorem mem_text (member : c ∈ ip.text) : c.isDigit = true ∨ c = '.' := by
  rcases mem_intercalate member with rfl | ⟨part, isPart, here⟩
  · exact Or.inr rfl
  · rcases List.mem_map.mp isPart with ⟨octet, -, rfl⟩
    exact Or.inl (isDigit_of_mem_toDigits here)

theorem point_mem (ip : IPv4) : '.' ∈ ip.text := by
  apply stop_mem_intercalate
  rw [List.length_map, ip.four]
  decide

theorem noColon (ip : IPv4) : ':' ∉ ip.text := by
  intro member
  rcases mem_text member with digit | equal
  · exact absurd digit (by decide)
  · exact absurd equal (by decide)

end IPv4

theorem Groups.mem_parts {groups : Groups} {part : List Char} {c : Char}
    (isPart : part ∈ groups.parts) (member : c ∈ part) : isHexDigit c = true ∨ c = '.' := by
  rcases List.mem_append.mp isPart with isGroup | isLast
  · rcases List.mem_map.mp isGroup with ⟨group, -, rfl⟩
    exact Or.inl (group.hex c member)
  · rcases List.mem_map.mp isLast with ⟨ip, -, rfl⟩
    rcases IPv4.mem_text member with digit | equal
    · exact Or.inl (by rw [isHexDigit, digit]; rfl)
    · exact Or.inr equal

namespace IPv6

variable {ip : IPv6} {c : Char}

theorem mem_text (member : c ∈ ip.text) : isHexDigit c = true ∨ c = '.' ∨ c = ':' := by
  have inGroups : ∀ {groups : Groups}, c ∈ [':'].intercalate groups.parts →
      isHexDigit c = true ∨ c = '.' ∨ c = ':' := by
    intro groups member
    rcases mem_intercalate member with equal | ⟨part, isPart, here⟩
    · exact Or.inr (Or.inr equal)
    · exact (Groups.mem_parts isPart here).imp_right Or.inl
  cases ip with
  | whole groups eight => exact inGroups member
  | compressed before after short =>
      rcases List.mem_append.mp member with front | back
      · rcases mem_intercalate front with equal | ⟨part, isPart, here⟩
        · exact Or.inr (Or.inr equal)
        · rcases List.mem_map.mp isPart with ⟨group, -, rfl⟩
          exact Or.inl (group.hex c here)
      · rcases List.mem_cons.mp back with equal | back
        · exact Or.inr (Or.inr equal)
        · rcases List.mem_cons.mp back with equal | back
          · exact Or.inr (Or.inr equal)
          · exact inGroups back

theorem colon_mem (ip : IPv6) : ':' ∈ ip.text := by
  cases ip with
  | whole groups eight =>
      apply stop_mem_intercalate
      have atMostOne : groups.last.toList.length ≤ 1 := by
        cases groups.last <;> simp
      rw [Groups.count] at eight
      rw [Groups.parts, List.length_append, List.length_map, List.length_map]
      omega
  | compressed before after short => exact List.mem_append_right _ List.mem_cons_self

end IPv6

namespace Network

/-- A text of the IPv4 family has no colon. -/
theorem noColon (ip : IPv4) (length : Option (Fin 33)) : ':' ∉ (Network.v4 ip length).text := by
  intro member
  rcases List.mem_append.mp member with inAddress | inPrefix
  · exact ip.noColon inAddress
  · cases length with
    | none => exact absurd inPrefix List.not_mem_nil
    | some n =>
        rcases List.mem_cons.mp inPrefix with equal | digit
        · exact absurd equal (by decide)
        · exact absurd (isDigit_of_mem_toDigits digit) (by decide)

theorem mem_text {network : Network} {c : Char} (member : c ∈ network.text) :
    isHexDigit c = true ∨ c = '.' ∨ c = ':' ∨ c = '/' := by
  have inPrefix : ∀ {length : Option Nat}, c ∈ prefixText length →
      isHexDigit c = true ∨ c = '.' ∨ c = ':' ∨ c = '/' := by
    intro length member
    cases length with
    | none => exact absurd member List.not_mem_nil
    | some n =>
        rcases List.mem_cons.mp member with equal | digit
        · exact Or.inr (Or.inr (Or.inr equal))
        · exact Or.inl (by rw [isHexDigit, isDigit_of_mem_toDigits digit]; rfl)
  cases network with
  | v4 ip length =>
      rcases List.mem_append.mp member with inAddress | behind
      · rcases IPv4.mem_text inAddress with digit | equal
        · exact Or.inl (by rw [isHexDigit, digit]; rfl)
        · exact Or.inr (Or.inl equal)
      · exact inPrefix behind
  | v6 ip length =>
      rcases List.mem_append.mp member with inAddress | behind
      · rcases IPv6.mem_text inAddress with hex | equal | equal
        · exact Or.inl hex
        · exact Or.inr (Or.inl equal)
        · exact Or.inr (Or.inr (Or.inl equal))
      · exact inPrefix behind

theorem text_ne_nil (network : Network) : network.text ≠ [] := by
  cases network with
  | v4 ip length => exact List.append_ne_nil_of_left_ne_nil (List.ne_nil_of_mem ip.point_mem) _
  | v6 ip length => exact List.append_ne_nil_of_left_ne_nil (List.ne_nil_of_mem ip.colon_mem) _

end Network

end Addresses
end Library
end Sigil
