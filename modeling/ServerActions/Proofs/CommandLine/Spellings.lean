import Mathlib.Data.List.Forall2
import Mathlib.Data.List.Nodup
import ServerActions.Proofs.CommandLine.Stages

namespace ServerActions.CommandLine

inductive Choice
  | flag (f : Flag)
  | config (value : String)
  | path (value : String)
  deriving DecidableEq

namespace Choice

def Differs : Choice → Choice → Prop
  | flag f, flag g => f ≠ g
  | config _, config _ => False
  | path _, path _ => False
  | _, _ => True

theorem Differs.symm {c d : Choice} (h : c.Differs d) : d.Differs c := by
  cases c <;> cases d <;> first | exact h | exact Ne.symm h

end Choice

open Choice

def choices (flags : List (Flag × Bool)) (config path : Option String) : List Choice :=
  (flags.filter Prod.snd).map (fun f => .flag f.1) ++ (config.map .config).toList ++
    (path.map .path).toList

structure IsValue (value : String) : Prop where
  ne_empty : value ≠ ""
  plain : value.toList.head? ≠ some '-'

inductive Spells : Choice → List String → Prop
  | short : Spells (.flag .verbose) ["-v"]
  | long {f : Flag} {a : String} (name : (f, a) ∈ [(Flag.verbose, "--verbose"),
      (.lenient, "--lenient"), (.dryRun, "--dry-run"), (.json, "--json")]) : Spells (.flag f) [a]
  | apart {v : String} (value : IsValue v) : Spells (.config v) ["--config", v]
  | joined {v : String} (value : IsValue v) : Spells (.config v) ["--config=" ++ v]
  | path {v : String} (value : IsValue v) : Spells (.path v) [v]

def Writes (cs : List Choice) (as : List String) : Prop :=
  ∃ order parts, order.Perm cs ∧ List.Forall₂ Spells order parts ∧ as = parts.flatten

section Choices

variable {flags : List (Flag × Bool)} {config path : Option String}

theorem flag_mem_choices {f : Flag} :
    .flag f ∈ choices flags config path ↔ (f, true) ∈ flags := by
  simp [choices]

theorem config_mem_choices {v : String} :
    .config v ∈ choices flags config path ↔ config = some v := by
  simp [choices]

theorem path_mem_choices {v : String} :
    .path v ∈ choices flags config path ↔ path = some v := by
  simp [choices]

theorem pairwise_choices (h : (flags.map Prod.fst).Nodup) :
    (choices flags config path).Pairwise Differs := by
  have hflags : ((flags.filter Prod.snd).map fun f => Choice.flag f.1).Pairwise Differs := by
    have hp : flags.Pairwise fun f g => f.1 ≠ g.1 := List.pairwise_map.mp h
    exact List.pairwise_map.mpr (hp.filter _)
  rw [choices, List.pairwise_append, List.pairwise_append]
  refine ⟨⟨hflags, by cases config <;> simp, ?_⟩, by cases path <;> simp, ?_⟩
  · cases config <;> simp [Differs]
  · intro c hc d hd
    obtain ⟨v, -, rfl⟩ := Option.map_eq_some_iff.mp (Option.mem_toList.mp hd)
    rcases List.mem_append.mp hc with hc | hc
    · obtain ⟨f, -, rfl⟩ := List.mem_map.mp hc
      exact trivial
    · obtain ⟨w, -, rfl⟩ := Option.map_eq_some_iff.mp (Option.mem_toList.mp hc)
      exact trivial

end Choices

theorem IsValue.ofArgument {v : String} (h : IsValue v) : Token.ofArgument v = .plain := by
  unfold Token.ofArgument
  split
  next hv => exact absurd (by rw [hv]; rfl) h.plain
  next hv => exact absurd (by rw [hv]; rfl) h.plain
  next hv => exact absurd (by rw [hv]; rfl) h.plain
  next => rfl

theorem ofArgument_joined (v : String) :
    Token.ofArgument ("--config=" ++ v) = .long "config".toList (some v.toList) := by
  have hsplit : ("--config=" ++ v).toList = '-' :: '-' :: ("config=".toList ++ v.toList) := by
    rw [String.toList_append]
    rfl
  rw [Token.ofArgument, hsplit]
  rfl

theorem Spells.flag_argument {f : Flag} {part : List String} (h : Spells (.flag f) part) :
    f ≠ .help ∧ f ≠ .version ∧ ∃ a, part = [a] ∧
      (f = .verbose ∧ Token.ofArgument a = .short ['v'] ∨
        ∃ name, Token.ofArgument a = .long name none ∧ name ≠ "config".toList ∧
          Flag.ofName? name = some f) := by
  cases h with
  | short => exact ⟨by decide, by decide, _, rfl, .inl ⟨rfl, rfl⟩⟩
  | long name =>
    simp only [List.mem_cons, List.not_mem_nil, or_false, Prod.mk.injEq] at name
    rcases name with ⟨rfl, rfl⟩ | ⟨rfl, rfl⟩ | ⟨rfl, rfl⟩ | ⟨rfl, rfl⟩
    all_goals exact ⟨by decide, by decide, _, rfl, .inr ⟨_, rfl, by decide, rfl⟩⟩

theorem Spells.flag_token {f : Flag} {part : List String} (h : Spells (.flag f) part) :
    ∃ a, part = [a] ∧ Token.ofArgument a ≠ .separator ∧ Token.ofArgument a ≠ .plain := by
  obtain ⟨-, -, a, rfl, hargument⟩ := h.flag_argument
  refine ⟨a, rfl, ?_⟩
  rcases hargument with ⟨-, ha⟩ | ⟨name, ha, -⟩
  · rw [ha]
    exact ⟨nofun, nofun⟩
  · rw [ha]
    exact ⟨nofun, nofun⟩

theorem Spells.ne_separator {c : Choice} {part : List String} (h : Spells c part) :
    ∀ a ∈ part, Token.ofArgument a ≠ .separator := by
  have hvalue {v : String} (hv : IsValue v) : Token.ofArgument v ≠ .separator := by
    rw [hv.ofArgument]
    exact nofun
  cases c with
  | flag f =>
    obtain ⟨a, rfl, ha, -⟩ := h.flag_token
    rwa [List.forall_mem_singleton]
  | config v =>
    cases h with
    | apart hv =>
      rw [List.forall_mem_cons, List.forall_mem_singleton]
      exact ⟨by decide, hvalue hv⟩
    | joined hv =>
      rw [List.forall_mem_singleton, ofArgument_joined]
      exact nofun
  | path v =>
    cases h with
    | path hv =>
      rw [List.forall_mem_singleton]
      exact hvalue hv

namespace Given

def take (scope : Scope) (g : Given) (a : String) : Except Notice Given :=
  match Token.ofArgument a with
  | .separator => misuse .unknownArgument
  | .long name value => g.takeLong scope name value
  | .short letters => takeLetters scope g letters
  | .plain =>
    if g.pending = .config then .ok { g with pending := .configValue a } else g.takePath a

def Gives (g : Given) : Choice → Prop
  | .flag f => f ∈ g.flags
  | .config v => g.config = some v
  | .path v => g.path = some v

def Holds (g : Given) (done : List Choice) : Prop :=
  ∃ s, g.settle = .ok s ∧ ∀ c, s.Gives c ↔ c ∈ done

variable {g s : Given} {scope : Scope} {done : List Choice} {v : String} {part : List String}

theorem settle_of_none (h : g.pending = .none) : g.settle = .ok g := by
  rw [settle, h]

theorem settle_cases (h : g.settle = .ok s) :
    (g.pending = .none ∧ s = g) ∨
      (∃ v, g.pending = .configValue v ∧ s = { g with config := some v, pending := .none }) ∨
      ∃ v, g.pending = .pathValue v ∧ s = { g with path := some v, pending := .none } := by
  unfold settle takeConfig misuse at h
  split at h
  next hp => exact .inl ⟨hp, (Except.ok.inj h).symm⟩
  next => cases h
  next v hp =>
    split_ifs at h
    exact .inr (.inl ⟨v, hp, (Except.ok.inj h).symm⟩)
  next v hp =>
    split_ifs at h
    exact .inr (.inr ⟨v, hp, (Except.ok.inj h).symm⟩)

theorem pending_of_settle (h : g.settle = .ok s) : s.pending = .none := by
  obtain ⟨hp, rfl⟩ | ⟨v, -, rfl⟩ | ⟨v, -, rfl⟩ := settle_cases h
  · exact hp
  · rfl
  · rfl

theorem hasPath_of_settle (h : g.settle = .ok s) : g.hasPath = s.path.isSome := by
  rw [hasPath]
  obtain ⟨hp, rfl⟩ | ⟨v, hp, rfl⟩ | ⟨v, hp, rfl⟩ := settle_cases h
  · rw [hp]
  · rw [hp]
  · rw [hp]
    rfl

theorem Holds.pending_ne (h : g.Holds done) : g.pending ≠ .config := by
  obtain ⟨s, hs, -⟩ := h
  intro hp
  rw [settle, hp] at hs
  cases hs

theorem Holds.congr {done' : List Choice} (h : g.Holds done) (he : ∀ c, c ∈ done ↔ c ∈ done') :
    g.Holds done' := by
  obtain ⟨s, hs, hgives⟩ := h
  exact ⟨s, hs, fun c => (hgives c).trans (he c)⟩

theorem holds_nothing : Holds {} [] := by
  refine ⟨{}, rfl, fun c => ?_⟩
  cases c <;> simp [Gives]

theorem takeFlag_eq (h : g.settle = .ok s) {f : Flag} (hf : f ≠ .help ∧ f ≠ .version)
    (hnew : f ∉ s.flags) : g.takeFlag scope f = .ok { s with flags := f :: s.flags } := by
  simp only [takeFlag, h, bind, Except.bind]
  split
  next => exact absurd rfl hf.1
  next => exact absurd rfl hf.2
  next => simp [hnew]

theorem takeLong_flag {f : Flag} {name : List Char} (hname : Flag.ofName? name = some f)
    (hconfig : name ≠ "config".toList) (hf : scope.knows f = true) :
    g.takeLong scope name none = g.takeFlag scope f := by
  have hflag : scope.flag? name = some f := by
    rw [Scope.flag?, hname, Option.filter_some, if_pos hf]
  unfold takeLong
  rw [if_neg hconfig, hflag]

theorem takeLetters_verbose : takeLetters scope g ['v'] = g.takeFlag scope .verbose := by
  have hletter : scope.letter? 'v' = some .verbose := by cases scope <;> rfl
  simp only [takeLetters, hletter]
  exact bind_pure _

theorem foldlM_take_flag {f : Flag} (h : Spells (.flag f) part) (hf : scope.knows f = true) :
    part.foldlM (take scope) g = g.takeFlag scope f := by
  obtain ⟨-, -, a, rfl, hargument⟩ := h.flag_argument
  have ha : g.take scope a = g.takeFlag scope f := by
    rcases hargument with ⟨rfl, ha⟩ | ⟨name, ha, hconfig, hname⟩
    · rw [take, ha]
      exact takeLetters_verbose
    · rw [take, ha]
      exact takeLong_flag hname hconfig hf
  rw [List.foldlM_cons, ha]
  exact bind_pure _

theorem Holds.take_flag {f : Flag} (h : g.Holds done) (hc : Spells (.flag f) part)
    (hnew : .flag f ∉ done) (hf : scope.knows f = true) :
    ∃ g', part.foldlM (take scope) g = .ok g' ∧ g'.Holds (.flag f :: done) := by
  obtain ⟨s, hs, hgives⟩ := h
  have hflag : f ∉ s.flags := fun hf => hnew ((hgives (.flag f)).mp hf)
  have hpending := pending_of_settle hs
  obtain ⟨hhelp, hversion, -⟩ := hc.flag_argument
  refine ⟨{ s with flags := f :: s.flags }, ?_, _, settle_of_none hpending, ?_⟩
  · rw [foldlM_take_flag hc hf, takeFlag_eq hs ⟨hhelp, hversion⟩ hflag]
  · intro c
    rw [List.mem_cons, ← hgives]
    cases c <;> simp [Gives]

theorem take_value (h : IsValue v) :
    g.take scope v =
      if g.pending = .config then .ok { g with pending := .configValue v }
      else g.takePath v := by
  rw [take, h.ofArgument]

theorem take_config (h : g.settle = .ok s) :
    g.take scope "--config" = .ok { s with pending := .config } := by
  show g.takeLong scope "config".toList none = _
  unfold takeLong
  rw [if_pos rfl, h]
  rfl

theorem take_joined (h : g.settle = .ok s) (hv : v ≠ "") (hnew : s.config = none) :
    g.take scope ("--config=" ++ v) = .ok { s with config := some v, pending := .none } := by
  rw [take, ofArgument_joined]
  show g.takeLong scope "config".toList (some v.toList) = _
  unfold takeLong
  rw [if_pos rfl, h]
  show s.takeConfig (String.ofList v.toList) = _
  rw [takeConfig, String.ofList_toList, if_neg (by simp [hnew]), if_neg hv]

theorem Holds.take_config (h : g.Holds done) (hc : Spells (.config v) part)
    (hnew : ∀ w, .config w ∉ done) :
    ∃ g', part.foldlM (take scope) g = .ok g' ∧ g'.Holds (.config v :: done) := by
  obtain ⟨s, hs, hgives⟩ := h
  have hnone : s.config = none :=
    Option.eq_none_iff_forall_ne_some.mpr fun w hw => hnew w ((hgives (.config w)).mp hw)
  have hafter : ∀ c, Gives { s with config := some v, pending := .none } c ↔
      c ∈ .config v :: done := by
    intro c
    rw [List.mem_cons, ← hgives]
    cases c <;> simp [Gives, hnone, eq_comm]
  cases hc with
  | apart hv =>
    refine ⟨{ s with pending := .configValue v }, ?_, _, ?_, hafter⟩
    · rw [List.foldlM_cons, Given.take_config hs]
      show [v].foldlM (take scope) { s with pending := .config } = _
      rw [List.foldlM_cons, take_value hv]
      rfl
    · simp [settle, takeConfig, hnone, hv.ne_empty]
  | joined hv =>
    refine ⟨{ s with config := some v, pending := .none }, ?_, _, settle_of_none rfl, hafter⟩
    rw [List.foldlM_cons, take_joined hs hv.ne_empty hnone]
    rfl

theorem takePath_eq (h : g.settle = .ok s) (hnew : s.path = none) :
    g.takePath v = .ok { s with pending := .pathValue v } := by
  have hpath : g.hasPath = false := by
    rw [hasPath_of_settle h, hnew]
    rfl
  rw [takePath, hpath, h]
  rfl

theorem Holds.take_path (h : g.Holds done) (hc : Spells (.path v) part)
    (hnew : ∀ w, .path w ∉ done) :
    ∃ g', part.foldlM (take scope) g = .ok g' ∧ g'.Holds (.path v :: done) := by
  have hopen := h.pending_ne
  obtain ⟨s, hs, hgives⟩ := h
  have hnone : s.path = none :=
    Option.eq_none_iff_forall_ne_some.mpr fun w hw => hnew w ((hgives (.path w)).mp hw)
  cases hc with
  | path hv =>
    refine ⟨{ s with pending := .pathValue v }, ?_,
      { s with path := some v, pending := .none }, ?_, fun c => ?_⟩
    · rw [List.foldlM_cons, take_value hv, if_neg hopen, takePath_eq hs hnone]
      rfl
    · simp [settle, hv.ne_empty]
    · rw [List.mem_cons, ← hgives]
      cases c <;> simp [Gives, hnone, eq_comm]

theorem Holds.take {c : Choice} (h : g.Holds done) (hc : Spells c part)
    (hnew : ∀ d ∈ done, d.Differs c) (hknown : ∀ f, c = .flag f → scope.knows f = true) :
    ∃ g', part.foldlM (Given.take scope) g = .ok g' ∧ g'.Holds (c :: done) := by
  cases c with
  | flag f => exact h.take_flag hc (fun hf => hnew _ hf rfl) (hknown f rfl)
  | config v => exact h.take_config hc fun w hw => hnew _ hw
  | path v => exact h.take_path hc fun w hw => hnew _ hw

theorem Holds.settled {flags : List (Flag × Bool)} {config path : Option String}
    (h : g.Holds (choices flags config path)) (hflags : (flags.map Prod.fst).Nodup) :
    ∃ s, g.settle = .ok s ∧ s.config = config ∧ s.path = path ∧
      ∀ f b, (f, b) ∈ flags → s.flags.contains f = b := by
  obtain ⟨s, hs, hgives⟩ := h
  refine ⟨s, hs, ?_, ?_, ?_⟩
  · apply Option.ext
    intro w
    rw [← @config_mem_choices flags config path w, ← hgives]
    rfl
  · apply Option.ext
    intro w
    rw [← @path_mem_choices flags config path w, ← hgives]
    rfl
  · intro f b hf
    have hflag : f ∈ s.flags ↔ (f, true) ∈ flags := by
      rw [← @flag_mem_choices flags config path, ← hgives]
      rfl
    rw [Bool.eq_iff_iff, List.contains_iff_mem, hflag]
    constructor
    · intro ht
      exact congrArg Prod.snd (List.inj_on_of_nodup_map hflags hf ht rfl)
    · rintro rfl
      exact hf

end Given

open Given

section Loops

variable {g : Given} {scope : Scope} {done : List Choice} {c : Choice} {part : List String}

theorem takeAll_append (h : ∀ a ∈ part, Token.ofArgument a ≠ .separator) (as : List String) :
    takeAll scope g (part ++ as) =
      part.foldlM (Given.take scope) g >>= fun g => takeAll scope g as := by
  induction part generalizing g with
  | nil => rfl
  | cons a part ih =>
    obtain ⟨ha, hpart⟩ := List.forall_mem_cons.mp h
    have hcons (as : List String) :
        takeAll scope g (a :: as) = g.take scope a >>= fun g => takeAll scope g as := by
      rw [takeAll, Given.take]
      cases ht : Token.ofArgument a with
      | separator => exact absurd ht ha
      | long name value => rfl
      | short letters => rfl
      | plain =>
        dsimp only
        split_ifs <;> rfl
    rw [List.cons_append, hcons, List.foldlM_cons, bind_assoc]
    simp only [ih hpart]

theorem parseFrom_cons {a : String} (ha : Token.ofArgument a ≠ .separator)
    (hplain : Token.ofArgument a = .plain → g.pending = .config) (as : List String) :
    parseFrom g (a :: as) = g.take .program a >>= fun g => parseFrom g as := by
  have hname (name : String) (hn : Token.ofArgument name = .plain) :
      (decide (g.pending ≠ .config) && decide (a = name)) = false := by
    rw [Bool.and_eq_false_iff]
    by_cases h : a = name
    · subst h
      exact .inl (decide_eq_false (not_not_intro (hplain hn)))
    · exact .inr (decide_eq_false h)
  rw [parseFrom, hname "generate" rfl, hname "check" rfl, hname "help" rfl, Given.take]
  simp only [Bool.false_eq_true, if_false]
  cases ht : Token.ofArgument a with
  | separator => exact absurd ht ha
  | long name value => rfl
  | short letters => rfl
  | plain => simp [hplain ht, bind, Except.bind]

theorem parseFrom_append (h : g.Holds done) (hc : Spells c part) (hpath : ∀ v, c ≠ .path v)
    (as : List String) :
    parseFrom g (part ++ as) =
      part.foldlM (Given.take .program) g >>= fun g => parseFrom g as := by
  have hoption {a : String} (ha : [a] = part) (hplain : Token.ofArgument a ≠ .plain) :
      parseFrom g (part ++ as) =
        part.foldlM (Given.take .program) g >>= fun g => parseFrom g as := by
    subst ha
    rw [List.singleton_append, List.foldlM_cons, bind_assoc,
      parseFrom_cons (hc.ne_separator a List.mem_cons_self) (fun hp => absurd hp hplain)]
    rfl
  cases c with
  | flag f =>
    obtain ⟨a, ha, -, hplain⟩ := hc.flag_token
    exact hoption ha.symm hplain
  | config v =>
    cases hc with
    | apart hv =>
      obtain ⟨s, hs, -⟩ := h
      rw [List.foldlM_cons, Given.take_config hs, List.cons_append,
        parseFrom_cons (by decide) (fun hp => absurd hp (by decide)), Given.take_config hs]
      show parseFrom { s with pending := .config } (v :: as) =
        [v].foldlM (Given.take .program) { s with pending := .config } >>= fun g => parseFrom g as
      rw [parseFrom_cons (by rw [hv.ofArgument]; exact nofun) fun _ => rfl, List.foldlM_cons,
        bind_assoc]
      rfl
    | joined hv =>
      apply hoption rfl
      rw [ofArgument_joined]
      exact nofun
  | path v => exact absurd rfl (hpath v)

section Run

variable {β : Type} {loop : Given → List String → Except Notice β} {allowed : Choice → Prop}
  {cs : List Choice}

def Takes (scope : Scope) (loop : Given → List String → Except Notice β)
    (allowed : Choice → Prop) : Prop :=
  ∀ g done c part, Given.Holds g done → Spells c part → allowed c → ∀ as,
    loop g (part ++ as) = part.foldlM (Given.take scope) g >>= fun g => loop g as

theorem Takes.run (hloop : Takes scope loop allowed) {order : List Choice}
    {parts : List (List String)} (hspell : List.Forall₂ Spells order parts)
    (hallowed : ∀ c ∈ order, allowed c) (hknown : ∀ f, allowed (.flag f) → scope.knows f = true)
    (hdiffer : order.Pairwise Differs) (hnew : ∀ d ∈ done, ∀ c ∈ order, d.Differs c)
    (h : g.Holds done) (as : List String) :
    ∃ g', loop g (parts.flatten ++ as) = loop g' as ∧ g'.Holds (order.reverse ++ done) := by
  induction hspell generalizing g done with
  | nil => exact ⟨g, rfl, h⟩
  | @cons c part order parts hc _ ih =>
    obtain ⟨hhead, hdiffer⟩ := List.pairwise_cons.mp hdiffer
    have hc' := hallowed c List.mem_cons_self
    obtain ⟨g₁, hg₁, h₁⟩ := h.take hc (fun d hd => hnew d hd c List.mem_cons_self)
      (by rintro f rfl; exact hknown f hc')
    have hnew₁ : ∀ d ∈ c :: done, ∀ e ∈ order, d.Differs e := by
      rw [List.forall_mem_cons]
      exact ⟨hhead, fun d hd e he => hnew d hd e (List.mem_cons_of_mem _ he)⟩
    obtain ⟨g₂, hg₂, h₂⟩ :=
      ih (fun d hd => hallowed d (List.mem_cons_of_mem _ hd)) hdiffer hnew₁ h₁
    refine ⟨g₂, ?_, ?_⟩
    · rw [List.flatten_cons, List.append_assoc, hloop g done c part h hc hc', hg₁]
      exact hg₂
    · rwa [List.reverse_cons, List.append_assoc]

theorem Takes.run_written (hloop : Takes scope loop (· ∈ cs)) {as : List String}
    (hwritten : Writes cs as) (hknown : ∀ f, .flag f ∈ cs → scope.knows f = true)
    (hdiffer : cs.Pairwise Differs) (rest : List String) :
    ∃ g, loop {} (as ++ rest) = loop g rest ∧ g.Holds cs := by
  obtain ⟨order, parts, hperm, hspell, rfl⟩ := hwritten
  obtain ⟨g, hg, h⟩ := hloop.run hspell (fun c hc => hperm.mem_iff.mp hc) hknown
    ((hperm.pairwise_iff Differs.symm).mpr hdiffer) (by simp) holds_nothing rest
  exact ⟨g, hg, h.congr fun c => by simp [hperm.mem_iff]⟩

end Run

section Places

variable {flags : List (Flag × Bool)} {config path : Option String} {as : List String}

theorem parseFrom_written (hwritten : Writes (choices flags config none) as)
    (hflags : (flags.map Prod.fst).Nodup) (hknown : ∀ f ∈ flags, Scope.program.knows f.1 = true)
    (rest : List String) :
    ∃ g, parseFrom {} (as ++ rest) = parseFrom g rest ∧ g.Holds (choices flags config none) := by
  have hloop : Takes .program parseFrom (· ∈ choices flags config none) := by
    intro g done c part h hc hmem as
    apply parseFrom_append h hc
    rintro v rfl
    cases path_mem_choices.mp hmem
  exact hloop.run_written hwritten (fun f hf => hknown _ (flag_mem_choices.mp hf))
    (pairwise_choices hflags) rest

theorem takeAll_written (hwritten : Writes (choices flags config path) as)
    (hflags : (flags.map Prod.fst).Nodup) (hknown : ∀ f ∈ flags, scope.knows f.1 = true) :
    ∃ s, takeAll scope {} as = .ok s ∧ s.config = config ∧ s.path = path ∧
      ∀ f b, (f, b) ∈ flags → s.flags.contains f = b := by
  have hloop : Takes scope (takeAll scope) (· ∈ choices flags config path) :=
    fun _ _ _ _ _ hc _ as => takeAll_append hc.ne_separator as
  obtain ⟨g, hg, h⟩ := hloop.run_written hwritten
    (fun f hf => hknown _ (flag_mem_choices.mp hf)) (pairwise_choices hflags) []
  obtain ⟨s, hs, hvalues⟩ := h.settled hflags
  rw [List.append_nil] at hg
  exact ⟨s, by rw [hg, takeAll, hs], hvalues⟩

end Places

end Loops

namespace Command

def name : Command → String
  | generate _ _ _ _ => "generate"
  | check _ _ => "check"

def scope : Command → Scope
  | generate _ _ _ _ => .generate
  | check _ _ => .check

def flags : Command → List (Flag × Bool)
  | generate _ lenient dryRun json => [(.lenient, lenient), (.dryRun, dryRun), (.json, json)]
  | check _ lenient => [(.lenient, lenient)]

def refill (s : Given) : Command → Command
  | generate _ _ _ _ =>
    .generate (s.path.map Path.mk) (s.flags.contains .lenient) (s.flags.contains .dryRun)
      (s.flags.contains .json)
  | check _ _ => .check (s.path.map Path.mk) (s.flags.contains .lenient)

variable (command : Command)

theorem nodup_flags (verbose : Bool) :
    (((Flag.verbose, verbose) :: command.flags).map Prod.fst).Nodup := by
  cases command <;> simp [flags]

theorem knows_flags (verbose : Bool) :
    ∀ f ∈ (Flag.verbose, verbose) :: command.flags, command.scope.knows f.1 = true := by
  cases command <;> simp [flags, scope, Scope.knows]

theorem refill_eq {command : Command} {s : Given} (hpath : s.path = command.path.map Path.text)
    (hflags : ∀ f b, (f, b) ∈ command.flags → s.flags.contains f = b) :
    command.refill s = command := by
  have hmk (p : Option Path) : (p.map Path.text).map Path.mk = p := by cases p <;> rfl
  cases command with
  | generate p lenient dryRun json =>
    rw [refill, hpath, hflags .lenient lenient (by simp [flags]),
      hflags .dryRun dryRun (by simp [flags]), hflags .json json (by simp [flags]), hmk]
    rfl
  | check p lenient =>
    rw [refill, hpath, hflags .lenient lenient (by simp [flags]), hmk]
    rfl

theorem parseFrom_name {g : Given} (hg : g.pending ≠ .config) (as : List String) :
    parseFrom g (command.name :: as) = do
      let after ← takeAll command.scope {} as
      let before ← g.settle
      return .ofGiven before after (command.refill after) := by
  cases command <;> simp [name, parseFrom, hg] <;> rfl

end Command

/-- Arguments mean the same in every order and spelling.  A run is verbose if either side of the
command says so, and a settings file named behind the command counts before one in front of it. -/
theorem parse_written {command : Command} {verbose verbose' : Bool}
    {config config' : Option String} {before after : List String}
    (hbefore : Writes (choices [(.verbose, verbose)] config none) before)
    (hafter : Writes (choices ((.verbose, verbose') :: command.flags) config'
      (command.path.map Path.text)) after) :
    parse (before ++ command.name :: after) =
      .ok ⟨verbose || verbose', (config' <|> config).map Path.mk, command⟩ := by
  have hnodup : ([(Flag.verbose, verbose)].map Prod.fst).Nodup := List.nodup_singleton _
  obtain ⟨g, hparse, hg⟩ := parseFrom_written hbefore hnodup (by simp [Scope.knows])
    (command.name :: after)
  obtain ⟨s, hs, hconfig, -, hflags⟩ := hg.settled hnodup
  obtain ⟨s', hs', hconfig', hpath, hflags'⟩ :=
    takeAll_written hafter (command.nodup_flags verbose') (command.knows_flags verbose')
  have hcommand : command.refill s' = command :=
    Command.refill_eq hpath fun f b hf => hflags' f b (List.mem_cons_of_mem _ hf)
  have hverbose := hflags .verbose verbose List.mem_cons_self
  have hverbose' := hflags' .verbose verbose' List.mem_cons_self
  rw [parse, hparse, command.parseFrom_name hg.pending_ne, hs', hs]
  show Except.ok (Arguments.ofGiven s s' (command.refill s')) = _
  rw [hcommand, Arguments.ofGiven, hverbose, hverbose', hconfig, hconfig']

theorem parse_written_misleading_values :
    Writes (choices [(.verbose, true)] (some "generate") none) ["--config", "generate", "-v"] ∧
    Writes (choices [(.verbose, false), (.lenient, true)] (some "help") (some "check"))
      ["--lenient", "check", "--config=help"] ∧
    parse ["--config", "generate", "-v", "check", "--lenient", "check", "--config=help"] =
      .ok ⟨true, some ⟨"help"⟩, .check (some ⟨"check"⟩) true⟩ := by
  have hvalue (v : String) (hv : v ≠ "" ∧ v.toList.head? ≠ some '-') : IsValue v := ⟨hv.1, hv.2⟩
  have hbefore : Writes (choices [(.verbose, true)] (some "generate") none)
      ["--config", "generate", "-v"] := by
    refine ⟨[.config "generate", .flag .verbose], [["--config", "generate"], ["-v"]], ?_, ?_, rfl⟩
    · decide
    · exact .cons (.apart (hvalue _ (by decide))) (.cons .short .nil)
  have hafter : Writes (choices [(.verbose, false), (.lenient, true)] (some "help") (some "check"))
      ["--lenient", "check", "--config=help"] := by
    refine ⟨[.flag .lenient, .path "check", .config "help"],
      [["--lenient"], ["check"], ["--config=help"]], ?_, ?_, rfl⟩
    · decide
    · exact .cons (.long (by decide)) (.cons (.path (hvalue _ (by decide)))
        (.cons (.joined (v := "help") (hvalue _ (by decide))) .nil))
  exact ⟨hbefore, hafter, @parse_written (.check (some ⟨"check"⟩) true) _ _ _ _ _ _ hbefore hafter⟩

end ServerActions.CommandLine
