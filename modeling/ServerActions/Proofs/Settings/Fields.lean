import ServerActions.Proofs.Toml.Values
import ServerActions.Settings.Document

namespace ServerActions

open Toml

inductive Field
  | sourceDir
  | fileStem
  | extension
  | outputDir
  | outputStem
  | factory
  | directive
  | strict
  deriving DecidableEq

namespace Field

def name : Field → String
  | sourceDir => "source_dir"
  | fileStem => "file_stem"
  | extension => "extension"
  | outputDir => "output_dir"
  | outputStem => "output_stem"
  | factory => "factory"
  | directive => "directive"
  | strict => "strict"

def all : List Field :=
  [sourceDir, fileStem, extension, outputDir, outputStem, factory, directive, strict]

theorem map_name_all : all.map name = Settings.fieldNames :=
  rfl

theorem name_injective : Function.Injective name := by
  intro f g h
  revert h
  cases f <;> cases g <;> decide

theorem isKey_name (f : Field) : IsKey f.name f.name.toList := by
  have h : f.name.toList ≠ [] ∧ f.name.toList.all isBareKeyChar = true := by
    cases f <;> decide
  simpa using IsKey.bare h.1 (List.all_eq_true.mp h.2)

end Field

namespace Settings

def value (s : Settings) : Field → Scalar
  | .sourceDir => .text s.sourceDir
  | .fileStem => .text s.fileStem
  | .extension => .text s.extension
  | .outputDir => .text s.outputDir
  | .outputStem => .text s.outputStem
  | .factory => .text s.factory
  | .directive => .text s.directive
  | .strict => .boolean s.strict

def take (s c : Settings) : Field → Settings
  | .sourceDir => { s with sourceDir := c.sourceDir }
  | .fileStem => { s with fileStem := c.fileStem }
  | .extension => { s with extension := c.extension }
  | .outputDir => { s with outputDir := c.outputDir }
  | .outputStem => { s with outputStem := c.outputStem }
  | .factory => { s with factory := c.factory }
  | .directive => { s with directive := c.directive }
  | .strict => { s with strict := c.strict }

theorem value_take (s c : Settings) (f g : Field) :
    (s.take c f).value g = if g = f then c.value g else s.value g := by
  cases f <;> cases g <;> rfl

def DefaultBut (c : Settings) (fields : List Field) (s : Settings) : Prop :=
  ∀ f, s.value f = if f ∈ fields then c.value f else ({} : Settings).value f

theorem exists_defaultBut (c : Settings) (fields : List Field) : ∃ s, DefaultBut c fields s := by
  induction fields with
  | nil => exact ⟨{}, fun f => rfl⟩
  | cons g fields ih =>
    obtain ⟨s, hs⟩ := ih
    refine ⟨s.take c g, fun f => ?_⟩
    rw [value_take, hs]
    by_cases hf : f = g <;> simp [hf]

theorem eq_of_value_eq {s s' : Settings} (h : ∀ f, s.value f = s'.value f) : s = s' := by
  have hsource := h .sourceDir
  have hstem := h .fileStem
  have hextension := h .extension
  have hdir := h .outputDir
  have houtput := h .outputStem
  have hfactory := h .factory
  have hdirective := h .directive
  have hstrict := h .strict
  cases s
  cases s'
  simp_all [value]

theorem setField_name (s c : Settings) (key : Span) (f : Field) {v : Node}
    (hv : v.content = .scalar (c.value f)) : s.setField key f.name v = .ok (s.take c f) := by
  obtain ⟨span, rfl⟩ : ∃ span, v = .scalar span (c.value f) := by
    cases v with
    | scalar span value => exact ⟨span, by rw [Content.scalar.inj hv]⟩
    | _ => cases hv
  cases f <;> rfl

theorem setField_other (s : Settings) (key : Span) {name : String} (h : ∀ f : Field, name ≠ f.name)
    (v : Node) : s.setField key name v = .ok s := by
  unfold setField
  split
  next => exact absurd rfl (h .sourceDir)
  next => exact absurd rfl (h .fileStem)
  next => exact absurd rfl (h .extension)
  next => exact absurd rfl (h .outputDir)
  next => exact absurd rfl (h .outputStem)
  next => exact absurd rfl (h .factory)
  next => exact absurd rfl (h .directive)
  next => exact absurd rfl (h .strict)
  next => rfl

def Overrides (s c : Settings) (p : Field → Prop) (s' : Settings) : Prop :=
  ∀ f, (p f → s'.value f = c.value f) ∧ (¬ p f → s'.value f = s.value f)

theorem Overrides.trans {s c s' s'' : Settings} {p q : Field → Prop} (h : s.Overrides c p s')
    (h' : s'.Overrides c q s'') : s.Overrides c (fun f => p f ∨ q f) s'' := by
  intro f
  by_cases hq : q f
  · exact ⟨fun _ => (h' f).1 hq, fun hn => absurd (.inr hq) hn⟩
  · rw [(h' f).2 hq]
    exact ⟨fun hp => (h f).1 (hp.resolve_right hq), fun hn => (h f).2 fun hp => hn (.inl hp)⟩

theorem setField_overrides (s : Settings) {c : Settings} {k : Key} {v : Node}
    (h : ∀ f : Field, k.name = f.name → v.content = .scalar (c.value f)) :
    ∃ s', s.setField k.span k.name v = .ok s' ∧ s.Overrides c (fun f => k.name = f.name) s' := by
  by_cases hknown : ∃ f : Field, k.name = f.name
  · obtain ⟨f, hf⟩ := hknown
    refine ⟨s.take c f, by rw [hf]; exact setField_name s c _ f (h f hf), fun g => ?_⟩
    rw [hf, value_take]
    constructor
    · intro hg
      rw [if_pos (Field.name_injective hg.symm)]
    · intro hg
      rw [if_neg]
      rintro rfl
      exact hg rfl
  · have hother : ∀ f : Field, k.name ≠ f.name := fun f hf => hknown ⟨f, hf⟩
    exact ⟨s, setField_other s _ hother v, fun f => ⟨fun hf => absurd hf (hother f), fun _ => rfl⟩⟩

theorem foldlM_setField {c : Settings} {entries : List (Key × Node)}
    (h : ∀ e ∈ entries, ∀ f : Field, e.1.name = f.name → e.2.content = .scalar (c.value f))
    (s : Settings) :
    ∃ s', entries.foldlM (fun s (k, v) => s.setField k.span k.name v) s = .ok s' ∧
      s.Overrides c (fun f => ∃ e ∈ entries, e.1.name = f.name) s' := by
  induction entries generalizing s with
  | nil => exact ⟨s, rfl, fun f => ⟨fun ⟨_, he, _⟩ => absurd he List.not_mem_nil, fun _ => rfl⟩⟩
  | cons e entries ih =>
    obtain ⟨first, hfirst, hvalue⟩ := setField_overrides s (h e List.mem_cons_self)
    obtain ⟨s', hs', hrest⟩ := ih (fun e he => h e (List.mem_cons_of_mem _ he)) first
    refine ⟨s', ?_, ?_⟩
    · show s.setField e.1.span e.1.name e.2 >>= (fun s => entries.foldlM _ s) = _
      rw [hfirst]
      exact hs'
    · simpa only [List.mem_cons, exists_eq_or_imp] using hvalue.trans hrest

structure Holds (c : Settings) (fields : List Field) (entries : List (Key × Node)) : Prop where
  values : ∀ e ∈ entries, ∀ f : Field, e.1.name = f.name →
    f ∈ fields ∧ e.2.content = .scalar (c.value f)
  all : ∀ f ∈ fields, ∃ e ∈ entries, e.1.name = f.name

theorem Holds.ofFields {c : Settings} {fields : List Field} {entries : List (Key × Node)}
    (h : Holds c fields entries) :
    ∃ s, ofFields entries = .ok s ∧ DefaultBut c fields s := by
  obtain ⟨s, hs, hvalue⟩ := foldlM_setField (fun e he f hf => (h.values e he f hf).2) {}
  refine ⟨s, hs, fun f => ?_⟩
  split
  next hf => exact (hvalue f).1 (h.all f hf)
  next hf => exact (hvalue f).2 fun ⟨e, he, hname⟩ => hf (h.values e he f hname).1

def Gives (c : Settings) (fields : List Field) (own : List (Key × Node)) : Prop :=
  List.Forall₂ (fun f e => e.1.name = f.name ∧ e.2.content = .scalar (c.value f)) fields own

theorem Gives.holds {c : Settings} {fields : List Field} {own : List (Key × Node)}
    (h : Gives c fields own) : Holds c fields own := by
  induction h with
  | nil => exact ⟨fun e he => (List.not_mem_nil he).elim, fun f hf => (List.not_mem_nil hf).elim⟩
  | @cons f e fields own hfirst _ ih =>
    constructor
    · intro d hd g hg
      rcases List.mem_cons.mp hd with rfl | hd
      · obtain rfl : f = g := Field.name_injective (hfirst.1.symm.trans hg)
        exact ⟨List.mem_cons_self, hfirst.2⟩
      · obtain ⟨hmem, hcontent⟩ := ih.values d hd g hg
        exact ⟨List.mem_cons_of_mem _ hmem, hcontent⟩
    · intro g hg
      rcases List.mem_cons.mp hg with rfl | hg
      · exact ⟨e, List.mem_cons_self, hfirst.1⟩
      · obtain ⟨d, hd, hname⟩ := ih.all g hg
        exact ⟨d, List.mem_cons_of_mem _ hd, hname⟩

theorem Gives.lookup_eq_none {c : Settings} {fields : List Field} {own : List (Key × Node)}
    (h : Gives c fields own) {f : Field} (hf : f ∉ fields) : lookup f.name own = none := by
  induction h with
  | nil => rfl
  | @cons g e fields own hfirst _ ih =>
    have hne : e.1.name ≠ f.name := by
      intro he
      apply hf
      rw [Field.name_injective (hfirst.1.symm.trans he)]
      exact List.mem_cons_self
    rw [lookup, if_neg hne]
    exact ih fun hmem => hf (List.mem_cons_of_mem _ hmem)

theorem ofItems_eq (key : Span) (items : List Node) :
    ofItems key items = ofFields ((fieldNames.zip items).map fun e => (⟨e.1, key⟩, e.2)) := by
  rw [Settings.ofFields, List.foldlM_map]
  rfl

end Settings

end ServerActions
