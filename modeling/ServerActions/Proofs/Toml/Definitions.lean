import ServerActions.Proofs.Toml.Documents
import ServerActions.Proofs.Toml.Roles

namespace ServerActions.Toml

open Roles

def Form.role : Form → Role
  | inBraces => .value
  | header => .header
  | implied => .implied
  | dotted => .dotted

namespace Node

def inner : Node → List (Key × Node)
  | table _ .inBraces _ => []
  | table _ _ fields => fields
  | tables items =>
    match items.getLast? with
    | some (table _ .header fields) => fields
    | _ => []
  | _ => []

def role : Node → Role
  | table _ form _ => form.role
  | tables items =>
    match items.getLast? with
    | some (table _ .header _) => .tables
    | _ => .value
  | _ => .value

def roles : Node → List String → Option Role
  | t, [] => some t.role
  | t, name :: path => (lookup name t.inner).bind fun v => v.roles path

theorem inner_table {span : Option Span} {form : Form} {fields : List (Key × Node)}
    (h : form.role ≠ .value) : (table span form fields).inner = fields := by
  cases form with
  | inBraces => exact absurd rfl h
  | _ => rfl

theorem roles_append_eq_none {t : Node} {p : List String} (h : t.roles p = none)
    (q : List String) : t.roles (p ++ q) = none := by
  induction p generalizing t with
  | nil => cases h
  | cons name p ih =>
    rw [List.cons_append, roles]
    rw [roles] at h
    cases hl : lookup name t.inner with
    | none => rfl
    | some v =>
      rw [hl] at h
      exact ih h

end Node

/-- The fields of a table have the roles; that of the table itself is left open. -/
def Holds (fields : List (Key × Node)) (E : Roles) : Prop :=
  ∀ name q, E (name :: q) = (lookup name fields).bind fun v => v.roles q

section Holds

variable {fields fields' : List (Key × Node)} {E G : Roles} {along : Role}

theorem holds_nil (r : Role) : Holds [] (leaf r) :=
  fun _ _ => rfl

theorem Holds.lookup_eq_none_iff (h : Holds fields E) {name : String} :
    lookup name fields = none ↔ E [name] = none := by
  rw [h]
  cases lookup name fields <;> simp [Node.roles]

theorem Holds.of_lookup (h : Holds fields E) {name : String} {v : Node}
    (hv : lookup name fields = some v) : (fun q => E ([name] ++ q)) = v.roles := by
  funext q
  rw [List.singleton_append, h, hv]
  rfl

theorem Holds.closed (h : Holds fields E) (hroot : E [] ≠ none) {p : List String}
    (hp : E p = none) (q : List String) : E (p ++ q) = none := by
  cases p with
  | nil => exact absurd hp hroot
  | cons name p =>
    rw [List.cons_append, h]
    rw [h] at hp
    cases hl : lookup name fields with
    | none => rfl
    | some v =>
      rw [hl] at hp
      exact Node.roles_append_eq_none hp q

theorem Holds.set (h : Holds fields E) {name : String} {child : Node}
    (hself : lookup name fields' = some child)
    (hother : ∀ n, n ≠ name → lookup n fields' = lookup n fields) :
    Holds fields' (E.graft along [name] child.roles) := by
  intro n q
  by_cases hn : n = name
  · subst hn
    rw [hself]
    exact graft_append_self q
  · have hhead : [name].head? ≠ some n := fun he => hn (Option.some.inj he).symm
    rw [graft_other (List.cons_ne_nil _ _) hhead, hother n hn, h]

theorem holds_table {span : Option Span} {form : Form} (hform : form.role ≠ .value) :
    Holds fields (Node.table span form fields).roles := by
  intro name q
  rw [Node.roles, Node.inner_table hform]

theorem holds_tables {items : List Node} {span : Option Span} :
    Holds fields (Node.tables (items ++ [.table span .header fields])).roles := by
  intro name q
  simp [Node.roles, Node.inner]

theorem roles_table (span : Option Span) {form : Form} (hform : form.role ≠ .value)
    (hroot : E [] = some form.role) (h : Holds fields E) :
    (Node.table span form fields).roles = E := by
  funext q
  cases q with
  | nil => exact hroot.symm
  | cons name q => rw [Node.roles, Node.inner_table hform, h]

theorem roles_tables (items : List Node) (span : Option Span) (hroot : E [] = some .tables)
    (h : Holds fields E) :
    (Node.tables (items ++ [.table span .header fields])).roles = E := by
  funext q
  cases q with
  | nil => simp [Node.roles, Node.role, hroot]
  | cons name q => simp [Node.roles, Node.inner, h name q]

def Rooted (form : Form) (E : Roles) : Prop :=
  E [] = some form.role ∨ form = .header ∧ E [] = some .tables

theorem Rooted.ne_none {form : Form} (h : Rooted form E) : E [] ≠ none := by
  rcases h with h | ⟨-, h⟩ <;> simp [h]

theorem Rooted.congr {form : Form} (h : Rooted form E) (hG : G [] = E []) : Rooted form G := by
  rwa [Rooted, hG]

end Holds

def Form.Passes : Form → Role → Prop
  | .dotted, r => r = .dotted ∨ r = .implied
  | _, r => r ≠ .value

theorem exists_table_of_passes {along : Form} {v : Node} (h : along.Passes v.role) :
    (∃ span form own, v = .table span form own ∧ form.role ≠ .value ∧
      leadsThrough along form = true) ∨
    ∃ items span own, v = .tables (items ++ [.table span .header own]) := by
  have hvalue : v.role ≠ .value := by
    intro hv
    rw [hv] at h
    cases along <;> simp [Form.Passes] at h
  cases v with
  | table span form own =>
    refine .inl ⟨span, form, own, rfl, hvalue, ?_⟩
    cases form with
    | inBraces => exact absurd rfl hvalue
    | header =>
      cases along with
      | dotted => simp [Form.Passes, Node.role, Form.role] at h
      | _ => rfl
    | _ => cases along <;> rfl
  | tables items =>
    rw [Node.role] at hvalue
    split at hvalue
    next span own hlast =>
      obtain ⟨front, rfl⟩ := List.getLast?_eq_some_iff.mp hlast
      exact .inr ⟨front, span, own, rfl⟩
    next => exact absurd rfl hvalue
  | _ => exact absurd rfl hvalue

/-- The edit succeeds on tables with the roles `E`, and they have the roles `G` then. -/
def Edits (edit : Node → Option Node) (E G : Roles) : Prop :=
  ∀ span form fields, Rooted form E → Holds fields E →
    ∃ fields', edit (.table span form fields) = some (.table span form fields') ∧ Holds fields' G

section Descending

variable {along : Form} {edit : Node → Option Node} {E G : Roles} {k : Key} {ks : List Key}

theorem Edits.through (halong : along.role ≠ .value)
    (hpasses : ∀ r, E [k.name] = some r → along.Passes r)
    (hG : G [] = E.below along.role [k.name] [])
    (hedit : Edits (Toml.descend along edit ks) (E.below along.role [k.name]) G) :
    Edits (Toml.descend along edit (k :: ks)) E (E.graft along.role [k.name] G) := by
  intro span form fields hroot h
  rw [Toml.descend]
  cases hl : lookup k.name fields with
  | none =>
    have hnone := h.lookup_eq_none_iff.mp hl
    rw [below_of_none hnone] at hG hedit
    obtain ⟨own, hown, hholds⟩ := hedit none along [] (.inl rfl) (holds_nil _)
    refine ⟨fields ++ [(k, .table none along own)], by simp [hown], ?_⟩
    rw [← roles_table none halong hG hholds]
    exact h.set (lookup_append_self hl _) fun n hn => lookup_append_single hn _ _
  | some v =>
    have hsome : E [k.name] = some v.role := by
      rw [h, hl]
      rfl
    rw [below_of_some (by simp [hsome]), h.of_lookup hl] at hG hedit
    have hset (child : Node) := @h.set _ _ _ along.role k.name child
      (lookup_update_self (by simp [hl]) child) fun n hn => lookup_update_other hn _ _
    rcases exists_table_of_passes (hpasses _ hsome) with
      ⟨span', form', own, rfl, hvalue, hleads⟩ | ⟨items, span', own, rfl⟩
    · obtain ⟨own', hown, hholds⟩ := hedit span' form' own (.inl rfl) (holds_table hvalue)
      refine ⟨update k.name (.table span' form' own') fields, by simp [hown, hleads], ?_⟩
      rw [← roles_table span' hvalue hG hholds]
      exact hset _
    · have htables : (Node.tables (items ++ [.table span' .header own])).roles [] =
          some .tables := by
        simp [Node.roles, Node.role]
      obtain ⟨own', hown, hholds⟩ := hedit span' .header own (.inr ⟨rfl, htables⟩) holds_tables
      refine ⟨update k.name (.tables (items ++ [.table span' .header own'])) fields,
        by simp [hown], ?_⟩
      rw [← roles_tables items span' (hG.trans htables) hholds]
      exact hset _

theorem Edits.descend (halong : along.role ≠ .value)
    (hpasses : ∀ q, q <+: names ks → q ≠ [] → ∀ r, E q = some r → along.Passes r)
    (hG : G [] = E.below along.role (names ks) [])
    (hedit : Edits edit (E.below along.role (names ks)) G) :
    Edits (Toml.descend along edit ks) E (E.graft along.role (names ks) G) := by
  induction ks generalizing E with
  | nil =>
    intro span form fields hroot
    rw [names, List.map_nil, below_of_some hroot.ne_none] at hedit
    exact hedit span form fields hroot
  | cons k ks ih =>
    intro span form fields hroot h
    -- what is missing has nothing below it, so a path can be taken key by key
    have hclosed : E [k.name] = none → ∀ q, E ([k.name] ++ q) = none := fun hk =>
      h.closed hroot.ne_none hk
    have hpath : names (k :: ks) = [k.name] ++ names ks := rfl
    rw [hpath, below_append _ hclosed] at hG hedit
    rw [hpath, graft_append _ hclosed]
    refine Edits.through halong (hpasses [k.name] (List.prefix_append _ _) (List.cons_ne_nil _ _))
      (graft_root below_root_ne_none hG) (ih (fun q hq hne r hr => ?_) hG hedit) _ _ _ hroot h
    rw [below_apply hclosed hne] at hr
    exact hpasses (k.name :: q) (List.cons_prefix_cons.mpr ⟨rfl, hq⟩) (List.cons_ne_nil _ _) r hr

end Descending

section Keys

variable {E : Roles} {k : Key} {path : List Key} {value : Node}

theorem Roles.Assignable.passes {p q : List String} {name : String} {r : Role}
    (h : E.Assignable (p ++ [name])) (hq : q <+: p) (hne : q ≠ []) (hr : E q = some r) :
    Form.dotted.Passes r := by
  have hlast : q ≠ p ++ [name] := by
    rintro rfl
    exact absurd hq.length_le (by simp)
  have hmem := h.2.2 q (List.mem_inits _ _ |>.mpr (hq.trans (List.prefix_append _ _))) hne hlast
  simpa [hr, Form.Passes] using hmem

end Keys

section Headings

variable {E H : Roles} {k : Key} {pairs : Assignments} {keys : List (List String)}

def Header.edit (k : Key) (pairs : Assignments) : Header → Node → Option Node
  | .table span _ => addTable span k pairs
  | .tables span _ => addToTables span k pairs

end Headings

end ServerActions.Toml
