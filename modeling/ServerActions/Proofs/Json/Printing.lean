import Mathlib.Data.List.Forall2
import ServerActions.Json.Printer
import ServerActions.Proofs.Json.Decoding

namespace ServerActions.Json

open Text

mutual

def datum : Json → Datum
  | boolean value => .boolean value
  | number value => .number value
  | text value => .text value
  | array items => .array (itemData items)
  | object members => .object (memberData members)

def itemData : List Json → List Datum
  | [] => []
  | item :: items => datum item :: itemData items

def memberData : List (String × Json) → List (String × Datum)
  | [] => []
  | (name, value) :: members => (name, datum value) :: memberData members

end

mutual

def nesting : Json → Nat
  | boolean _ => 0
  | number _ => 0
  | text _ => 0
  | array items => itemNesting items
  | object members => memberNesting members

def itemNesting : List Json → Nat
  | [] => 0
  | item :: items => max (nesting item + 1) (itemNesting items)

def memberNesting : List (String × Json) → Nat
  | [] => 0
  | (_, value) :: members => max (nesting value + 1) (memberNesting members)

end

theorem itemData_eq_map (items : List Json) : itemData items = items.map datum := by
  induction items with
  | nil => rfl
  | cons item items ih => rw [itemData, ih, List.map_cons]

theorem itemNesting_le {items : List Json} {n : Nat} (h : ∀ item ∈ items, item.nesting < n) :
    itemNesting items ≤ n := by
  induction items with
  | nil => exact Nat.zero_le n
  | cons item items ih =>
    obtain ⟨hitem, hitems⟩ := List.forall_mem_cons.mp h
    exact Nat.max_le.mpr ⟨hitem, ih hitems⟩

theorem hexValue_control : ∀ n < 0x20,
    Toml.hexValue? ['0', '0', hexDigit (n / 16), hexDigit (n % 16)] = some n := by
  decide +kernel

theorem isChar_escapeChar (c : Char) : IsChar c (escapeChar c) := by
  unfold escapeChar
  split
  case h_8 hquote hbackslash _ _ _ _ _ =>
    split
    next hlow =>
      have hunit := IsUnit.digits (hexValue_control c.toNat hlow)
      have hchar := IsChar.unit hunit (by simp [isLead]; omega) (by simp [isTrail]; omega)
      rwa [Char.ofNat_toNat] at hchar
    next hhigh => exact .plain (by omega) hquote hbackslash
  all_goals exact .short rfl

theorem isChars_flatMap_escapeChar (cs : List Char) : IsChars cs (cs.flatMap escapeChar) := by
  induction cs with
  | nil => exact .nil
  | cons c cs ih => exact .cons (isChar_escapeChar c) ih

theorem isQuoted_printText (s : String) : IsQuoted s (printText s) :=
  ⟨_, rfl, isChars_flatMap_escapeChar s.toList⟩

theorem head?_toDigits {n : Nat} (h : 0 < n) : (Nat.toDigits 10 n).head? ≠ some '0' := by
  induction n using Nat.strongRecOn with
  | ind n ih =>
    rw [Nat.toDigits_eq_if (by decide)]
    split
    next hlt =>
      have hdigit : ∀ m < 10, 0 < m → [m.digitChar].head? ≠ some '0' := by decide
      exact hdigit n hlt h
    next hle =>
      have hlead := ih (n / 10) (by omega) (by omega)
      obtain ⟨d, ds, hd⟩ := List.exists_cons_of_ne_nil (@Nat.toDigits_ne_nil (n / 10) 10)
      rw [hd] at hlead ⊢
      exact hlead

theorem isWhole_toDigits (n : Nat) : IsWhole n (Nat.toDigits 10 n) := by
  rcases Nat.eq_zero_or_pos n with rfl | hn
  · exact .zero
  · have hdigits : ∀ d ∈ Nat.toDigits 10 n, d.isDigit = true := fun d hd =>
      Nat.isDigit_of_mem_toDigits (by decide) (by decide) hd
    have hwhole := IsWhole.digits ⟨Nat.toDigits 10 n, Nat.toDigits_ne_nil, hdigits⟩
      (head?_toDigits hn)
    rwa [natural, Nat.ofDigitChars_toDigits (by decide) (by decide)] at hwhole

theorem isNumber_toDigits (n : Nat) : IsNumber n (Nat.toDigits 10 n) := by
  have hparts : followed IsWhole (followed IsFraction IsExponent) (n, 0, 1) (Nat.toDigits 10 n) :=
    ⟨_, [], (List.append_nil _).symm, isWhole_toDigits n, [], [], rfl, .none, .none⟩
  refine ⟨(1, n, 0, 1), ⟨[], _, rfl, .plus, hparts⟩, ?_⟩
  show (1 : Rat) * (n + 0) * 1 = n
  rw [Rat.add_zero, Rat.mul_one, Rat.one_mul]

section Lines

variable {α : Type} {g : Grammar α} {opening closing : Char}

def noGap : Gap :=
  ⟨[], by simp⟩

def AllowsGaps (g : Grammar α) : Prop :=
  ∀ a t (before after : Gap), g a t → g a (before.val ++ t ++ after.val)

theorem allowsGaps_padded : AllowsGaps (padded g) := by
  rintro a t ⟨before, hb⟩ ⟨after, ha⟩ ⟨⟨before', hb'⟩, ⟨after', ha'⟩, u, rfl, hu⟩
  refine ⟨⟨before ++ before', ?_⟩, ⟨after' ++ after, ?_⟩, u, by simp, hu⟩
  · exact List.forall_mem_append.mpr ⟨hb, hb'⟩
  · exact List.forall_mem_append.mpr ⟨ha', ha⟩

theorem allowsGaps_member {g : Grammar Datum} : AllowsGaps (IsMember g) := by
  rintro m t before after ⟨u, v, rfl, hu, hv⟩
  have hname := allowsGaps_padded _ _ before noGap hu
  have hvalue := allowsGaps_padded _ _ noGap after hv
  exact ⟨_, _, by simp [noGap], hname, hvalue⟩

def lineGap (level : Nat) : Gap :=
  ⟨newLine level, by
    intro c hc
    rcases List.mem_cons.mp hc with rfl | hc
    · rfl
    · rw [List.eq_of_mem_replicate hc]
      rfl⟩

theorem listed_lines (hg : AllowsGaps g) {before after : Gap} {a : α} {as : List α}
    {line : List Char} {lines : List (List Char)} (hline : g a line)
    (hlines : List.Forall₂ g as lines) :
    Listed g (a :: as)
      (before.val ++ line ++ lines.flatMap (fun line => ',' :: before.val ++ line) ++ after.val) := by
  induction hlines generalizing a line with
  | nil =>
    have hitem := hg _ _ before after hline
    simpa using Listed.last hitem
  | cons hline' _ ih =>
    have hitem := hg _ _ before noGap hline
    simpa [noGap] using Listed.cons hitem (ih hline')

theorem enclosed_bracketed (hg : AllowsGaps g) {as : List α} {lines : List (List Char)}
    (level : Nat) (h : List.Forall₂ g as lines) :
    Enclosed opening closing g as (bracketed opening closing level lines) := by
  cases h with
  | nil => exact .empty noGap
  | cons hline hlines =>
    have hlisted := @listed_lines _ _ hg (lineGap (level + 1)) (lineGap level) _ _ _ _ hline hlines
    simpa [bracketed, lineGap] using Enclosed.listed hlisted

theorem padded_self {a : α} {t : List Char} (h : g a t) : padded g a t :=
  ⟨noGap, noGap, t, (List.append_nil t).symm, h⟩

theorem isMember_line {g : Grammar Datum} {name : String} {value : Datum} {t u : List Char}
    (ht : IsQuoted name t) (hu : g value u) : IsMember g (name, value) (t ++ [':', ' '] ++ u) :=
  ⟨t, ' ' :: u, by simp, padded_self ht, ⟨[' '], List.forall_mem_singleton.mpr rfl⟩, noGap, u,
    by simp [noGap], hu⟩

end Lines

mutual

theorem isValue_print (level : Nat) : ∀ (j : Json) {levels : Nat}, j.nesting ≤ levels →
    IsValue (levels + 1) j.datum (j.print level)
  | boolean true, _, _ => .true
  | boolean false, _, _ => .false
  | number value, _, _ => .number (isNumber_toDigits value)
  | text value, _, _ => .text (isQuoted_printText value)
  | array items, _, h =>
    .array (enclosed_bracketed allowsGaps_padded level (forall₂_printItems (level + 1) items h))
  | object members, _, h =>
    .object (enclosed_bracketed allowsGaps_member level
      (forall₂_printMembers (level + 1) members h))

theorem forall₂_printItems (level : Nat) : ∀ (items : List Json) {levels : Nat},
    itemNesting items ≤ levels →
      List.Forall₂ (padded (IsValue levels)) (itemData items) (printItems level items)
  | [], _, _ => .nil
  | item :: items, 0, h => by
    simp [itemNesting] at h
  | item :: items, levels + 1, h => by
    simp only [itemNesting, Nat.max_le, Nat.add_le_add_iff_right] at h
    exact .cons (padded_self (isValue_print level item h.1)) (forall₂_printItems level items h.2)

theorem forall₂_printMembers (level : Nat) : ∀ (members : List (String × Json)) {levels : Nat},
    memberNesting members ≤ levels →
      List.Forall₂ (IsMember (IsValue levels)) (memberData members) (printMembers level members)
  | [], _, _ => .nil
  | (name, value) :: members, 0, h => by
    simp [memberNesting] at h
  | (name, value) :: members, levels + 1, h => by
    simp only [memberNesting, Nat.max_le, Nat.add_le_add_iff_right] at h
    exact .cons (isMember_line (isQuoted_printText name) (isValue_print level value h.1))
      (forall₂_printMembers level members h.2)

end

theorem decode_pretty {j : Json} {levels : Nat} (h : j.nesting ≤ levels) :
    decode (levels + 1) j.pretty = some j.datum := by
  have hprinted := padded_self (isValue_print 0 j h)
  rwa [decode_eq_some_iff, pretty, String.toList_ofList]

mutual

theorem datum_inj : ∀ {j k : Json}, j.datum = k.datum → j = k
  | boolean value, k, h => by
    cases k with
    | boolean value' => rw [Datum.boolean.inj h]
    | _ => cases h
  | number value, k, h => by
    cases k with
    | number value' => rw [Rat.natCast_inj.mp (Datum.number.inj h)]
    | _ => cases h
  | text value, k, h => by
    cases k with
    | text value' => rw [Datum.text.inj h]
    | _ => cases h
  | array items, k, h => by
    cases k with
    | array items' => rw [itemData_inj (Datum.array.inj h)]
    | _ => cases h
  | object members, k, h => by
    cases k with
    | object members' => rw [memberData_inj (Datum.object.inj h)]
    | _ => cases h

theorem itemData_inj : ∀ {items items' : List Json}, itemData items = itemData items' →
    items = items'
  | [], [], _ => rfl
  | item :: items, item' :: items', h => by
    obtain ⟨hitem, hitems⟩ := List.cons.inj h
    rw [datum_inj hitem, itemData_inj hitems]

theorem memberData_inj : ∀ {members members' : List (String × Json)},
    memberData members = memberData members' → members = members'
  | [], [], _ => rfl
  | (name, value) :: members, (name', value') :: members', h => by
    obtain ⟨hmember, hmembers⟩ := List.cons.inj h
    obtain ⟨rfl, hvalue⟩ := Prod.mk.inj hmember
    rw [datum_inj hvalue, memberData_inj hmembers]

end

theorem pretty_injective : Function.Injective pretty := by
  intro j k h
  have hj := decode_pretty (Nat.le_max_left j.nesting k.nesting)
  rw [h, decode_pretty (Nat.le_max_right j.nesting k.nesting)] at hj
  exact (datum_inj (Option.some.inj hj)).symm

end ServerActions.Json
