import Untangle.Proofs.StepNames

/-!
# Resolution under other names

Suppose every variable of a program is spelled in a new way, so that no two variables that could be
confused get the same spelling. If resolution hoists the same declarations as before, it gives every
occurrence the scope that it had.

* `Spells` — such spellings.
* `tags_respelled` — the scopes stay.
-/

namespace Untangle

/-! ### Tags stay -/

def Step.keeps (r : Resolution) : Step → Bool
  | .hoistVar site _ id => r.keepsVar site id.name
  | .hoistFunc site id => r.keepsFunc site id.name
  | _ => false

def hoistChoices : Resolution → List Step → List Bool
  | _, [] => []
  | r, s :: ss => s.keeps r :: hoistChoices (s.run r) ss

def TagsStay (tags tags' : List (Nat × ScopeTag)) : Prop :=
  ∀ n t, tags.lookup n = some t → tags'.lookup n = some t

variable {n : Nat} {tags T : List (Nat × ScopeTag)} {id : Ident} {t : ScopeTag} {x : String}
  {s : Scope} {b : Binding} {r r' : Resolution}

theorem tagsStay_cons (t : ScopeTag) (h : tags.lookup n = none) :
    TagsStay tags ((n, t) :: tags) := by
  intro k u hk
  rw [List.lookup_cons]
  by_cases heq : k = n
  · rw [heq, h] at hk
    cases hk
  · rw [show (k == n) = false by simpa using heq]
    exact hk

namespace Resolution

theorem declare_stay (r : Resolution) (kind : DeclKind) (id : Ident) :
    TagsStay r.tags (r.declare kind id).tags := by
  unfold declare
  split
  · split
    · next hopen => exact tagsStay_cons _ (by simpa [isOpen] using hopen)
    · split <;> exact fun _ _ h => h
  · exact fun _ _ h => h

theorem refer_stay (r : Resolution) (isModule : Bool) (id : Ident) :
    TagsStay r.tags (r.refer isModule id).tags := by
  unfold refer
  split
  · split
    · next hopen => exact tagsStay_cons _ (by simpa [isOpen] using hopen)
    · exact fun _ _ h => h
  · exact fun _ _ h => h

end Resolution

/-- The state in which a variable is declared that is hoisted. -/
def HoistSite.reached (site : HoistSite) (r : Resolution) (name : String) : Resolution :=
  if site.inHandler then r.overtake name else r

theorem run_hoistVar (r : Resolution) (site : HoistSite) (kind : DeclKind) (id : Ident) :
    (Step.hoistVar site kind id).run r =
      if r.keepsVar site id.name then r else (site.reached r id.name).declare kind id := by
  simp only [Step.run, HoistSite.reached]
  split
  · rfl
  · split <;> rfl

theorem reached_tags (site : HoistSite) (r : Resolution) (name : String) :
    (site.reached r name).tags = r.tags := by
  unfold HoistSite.reached
  split <;> rfl

theorem Step.run_stay (r : Resolution) (s : Step) : TagsStay r.tags (s.run r).tags := by
  cases s with
  | declare kind id => exact r.declare_stay kind id
  | refer isModule id => exact r.refer_stay isModule id
  | hoistVar site kind id =>
    rw [run_hoistVar]
    split
    · exact fun _ _ h => h
    · have h := (site.reached r id.name).declare_stay kind id
      rwa [reached_tags] at h
  | hoistFunc site id =>
    simp only [Step.run]
    split
    · exact fun _ _ h => h
    · exact r.declare_stay .func id
  | _ => exact fun _ _ h => h

theorem run_stay (ss : List Step) (r : Resolution) : TagsStay r.tags (ss.foldl Step.run r).tags := by
  induction ss generalizing r with
  | nil => exact fun _ _ h => h
  | cons s ss ih => exact fun n t h => ih (s.run r) n t (s.run_stay r n t h)

/-! ### Spellings -/

/-- The tag that an occurrence of a numbered program gets. -/
def tagFor (tags : List (Nat × ScopeTag)) (id : Ident) : ScopeTag :=
  match id.scope with
  | .occurrence n => (tags.lookup n).getD .unset
  | tag => tag

theorem tagFor_of_lookup (hid : id.number? = some n) (h : tags.lookup n = some t) :
    tagFor tags id = t := by
  obtain ⟨name, scope, pos⟩ := id
  cases scope with
  | occurrence k =>
    obtain rfl : k = n := by simpa [Ident.number?] using hid
    simp [tagFor, h]
  | _ => simp [Ident.number?] at hid

/-- Spellings that keep the variables under some names apart, and keep the names that the grammar
gives a meaning of their own. -/
structure Spells (names : List String) (isModule : Bool) (ν : Binding → String) : Prop where
  apart : ∀ a b : Binding, a.name ∈ names → b.name ∈ names → ν a = ν b →
    a = b ∨ (ν a = a.name ∧ ν b = b.name)
  free : ∀ b : Binding, b.scope = .free → ν b = b.name
  top : isModule = false → ∀ b : Binding, b.scope = .top → ν b = b.name

variable {names : List String} {isModule : Bool} {ν : Binding → String}

theorem Spells.injective_at (h : Spells names isModule ν) {y : String} (hx : x ∈ names)
    (hy : y ∈ names) (heq : ν ⟨x, t⟩ = ν ⟨y, t⟩) : x = y := by
  rcases h.apart ⟨x, t⟩ ⟨y, t⟩ hx hy heq with hb | ⟨hx', hy'⟩
  · exact congrArg Binding.name hb
  · exact (hx'.symm.trans heq).trans hy'

/-- A scope that declares its names under other spellings. -/
def Scope.respell (ν : Binding → String) (s : Scope) : Scope :=
  { s with declared := s.declared.map fun d => (ν ⟨d.1, s.tag⟩, d.2) }

@[simp] theorem Scope.respell_tag (ν : Binding → String) (s : Scope) :
    (s.respell ν).tag = s.tag := rfl

/-- A scope whose declared names are among some. -/
def Scope.Names (names : List String) (s : Scope) : Prop := ∀ d ∈ s.declared, d.1 ∈ names

theorem Scope.kind?_respell (h : Spells names isModule ν) (hs : s.Names names) (hx : x ∈ names) :
    (s.respell ν).kind? (ν ⟨x, s.tag⟩) = s.kind? x := by
  obtain ⟨tag, isFunction, declared⟩ := s
  show (declared.map fun d => (ν ⟨d.1, tag⟩, d.2)).lookup (ν ⟨x, tag⟩) = declared.lookup x
  induction declared with
  | nil => rfl
  | cons d ds ih =>
    obtain ⟨y, k⟩ := d
    have hds := ih fun d hd => hs d (List.mem_cons_of_mem _ hd)
    rw [List.map_cons, List.lookup_cons, List.lookup_cons, hds]
    by_cases hxy : x = y
    · simp [hxy]
    · have hne : ν ⟨x, tag⟩ ≠ ν ⟨y, tag⟩ := fun heq =>
        hxy (h.injective_at hx (hs (y, k) List.mem_cons_self) heq)
      rw [beq_eq_false_iff_ne.2 hne, beq_eq_false_iff_ne.2 hxy]

theorem Scope.kind?_respell_none (h : Spells names isModule ν) (hs : s.Names names)
    (hb : b.name ∈ names) (hnone : s.kind? b.name = none) : (s.respell ν).kind? (ν b) = none := by
  show (s.declared.map fun d => (ν ⟨d.1, s.tag⟩, d.2)).lookup (ν b) = none
  rw [List.lookup_eq_none_iff]
  intro d' hd'
  obtain ⟨d, hd, rfl⟩ := List.mem_map.1 hd'
  have hne : d.1 ≠ b.name := fun heq => by
    have := List.lookup_eq_none_iff.1 hnone d hd
    simp [heq] at this
  refine bne_iff_ne.2 fun heq => ?_
  rcases h.apart b ⟨d.1, s.tag⟩ hb (hs d hd) heq with hbd | ⟨hb', hd''⟩
  · exact hne (by rw [hbd])
  · exact hne (by rw [← hb', heq, hd''])

/-! ### Looking names up -/

namespace Resolution

variable (r : Resolution) {x : String} {t : ScopeTag}

theorem tagOf_none (h : findScope? false x r.scopes = none) : r.tagOf isModule x = .free := by
  simp [tagOf, h]

theorem tagOf_fixed (h : findScope? false x r.scopes = some t)
    (hfixed : (t = .top ∧ isModule = false) ∧ isFixedGlobal x = true) :
    r.tagOf isModule x = .free := by
  simp [tagOf, h, hfixed.1.1, hfixed.1.2, hfixed.2]

theorem tagOf_found (h : findScope? false x r.scopes = some t)
    (hfixed : ¬((t = .top ∧ isModule = false) ∧ isFixedGlobal x = true)) :
    r.tagOf isModule x = t := by
  simp only [tagOf, h]
  refine if_neg fun hnow => hfixed ?_
  simpa using hnow

end Resolution

/-! ### Runs in lockstep -/

/-- An occurrence of a numbered program under its new spelling. -/
def respellFor (ν : Binding → String) (tags : List (Nat × ScopeTag)) (id : Ident) : Ident :=
  id.withName (ν ⟨id.name, tagFor tags id⟩)

/-- Two states of resolution that differ in spellings only. Names that are taken over in handlers
bear on what is hoisted alone, and are left out. -/
structure Lockstep (ν : Binding → String) (r r' : Resolution) : Prop where
  scopes : r'.scopes = r.scopes.map (Scope.respell ν)
  nextScope : r'.nextScope = r.nextScope
  tags : r'.tags = r.tags

/-- A state in which all declared names are among some, in scopes of variables. -/
def Resolution.Names (names : List String) (r : Resolution) : Prop :=
  ∀ s ∈ r.scopes, s.Names names ∧ s.tag ≠ .free

namespace Lockstep

variable {r r' : Resolution} {T : List (Nat × ScopeTag)}

theorem isOpen (h : Lockstep ν r r') (n : Nat) : r'.isOpen n = r.isOpen n := by
  unfold Resolution.isOpen
  rw [h.tags]

theorem declare (hν : Spells names isModule ν) (h : Lockstep ν r r') (hr : r.Names names)
    (kind : DeclKind) (hid : id.name ∈ names) (hstay : TagsStay (r.declare kind id).tags T) :
    Lockstep ν (r.declare kind id) (r'.declare kind (respellFor ν T id)) := by
  have hnumber : (respellFor ν T id).number? = id.number? := rfl
  unfold Resolution.declare at hstay ⊢
  rw [hnumber, h.scopes]
  rcases hn : id.number? with _ | n
  · exact h
  rcases hscopes : r.scopes with _ | ⟨s, rest⟩
  · simpa [hn, hscopes] using h
  simp only [hn, hscopes] at hstay
  simp only [List.map_cons, h.isOpen]
  have hs : s ∈ r.scopes := hscopes ▸ List.mem_cons_self
  by_cases hopen : r.isOpen n = true
  · rw [if_pos hopen] at hstay
    simp only [if_pos hopen]
    have htag : tagFor T id = s.tag := tagFor_of_lookup hn (hstay n s.tag (by simp))
    refine ⟨?_, h.nextScope, ?_⟩
    · simp [Scope.add, Scope.respell, respellFor, Ident.withName, htag]
    · simp [Scope.respell, h.tags]
  · simp only [if_neg hopen]
    by_cases htag : r.tags.lookup n = some s.tag
    · have hT : tagFor T id = s.tag := by
        refine tagFor_of_lookup hn (hstay n s.tag ?_)
        rw [if_neg hopen]
        split <;> exact htag
      have hkind : (s.respell ν).kind? (respellFor ν T id).name = s.kind? id.name := by
        show (s.respell ν).kind? (ν ⟨id.name, tagFor T id⟩) = s.kind? id.name
        rw [hT]
        exact Scope.kind?_respell hν (hr s hs).1 hid
      rw [hkind, h.tags, Scope.respell_tag]
      by_cases hagain : (r.tags.lookup n == some s.tag && s.kind? id.name == some .param) = true
      · rw [if_pos hagain, if_pos hagain]
        refine ⟨?_, h.nextScope, rfl⟩
        simp [Scope.add, Scope.respell, respellFor, Ident.withName, hT]
      · rw [if_neg hagain, if_neg hagain]
        exact h
    · have hne : (r.tags.lookup n == some s.tag) = false := beq_eq_false_iff_ne.2 htag
      rw [h.tags, Scope.respell_tag, hne, Bool.false_and, Bool.false_and]
      exact h

variable {scopes : List Scope}

/-- A variable of the scope that its name is found in, if any, is found there under its spelling. -/
theorem findScope?_respell {found : Option ScopeTag} (hν : Spells names isModule ν)
    (hx : x ∈ names) (hscopes : ∀ s ∈ scopes, s.Names names) (ht : ∀ t' ∈ found, t' = t)
    (h : findScope? false x scopes = found) :
    findScope? false (ν ⟨x, t⟩) (scopes.map (Scope.respell ν)) = found := by
  induction scopes with
  | nil => exact h
  | cons s rest ih =>
    have hs := hscopes s List.mem_cons_self
    unfold findScope? at h
    rw [List.map_cons]
    unfold findScope?
    by_cases hkind : (s.kind? x).isSome = true
    · rw [if_pos hkind] at h
      cases h
      obtain rfl := ht _ rfl
      rw [Scope.kind?_respell hν hs hx, if_pos hkind]
      rfl
    · have hnone : s.kind? x = none := by simpa using hkind
      rw [if_neg hkind] at h
      rw [Scope.kind?_respell_none (b := ⟨x, t⟩) hν hs hx hnone]
      exact ih (fun s' hs' => hscopes s' (List.mem_cons_of_mem _ hs')) h

/-- A reference under its new spelling finds the scope that it found. -/
theorem tagOf (hν : Spells names isModule ν) (h : Lockstep ν r r') (hr : r.Names names)
    (hx : x ∈ names) : r'.tagOf isModule (ν ⟨x, r.tagOf isModule x⟩) = r.tagOf isModule x := by
  have hscopes : ∀ s ∈ r.scopes, s.Names names := fun s hs => (hr s hs).1
  have hfree : ν ⟨x, .free⟩ = x := hν.free _ rfl
  rcases hfound : findScope? false x r.scopes with _ | t
  · have hnew := findScope?_respell (t := .free) hν hx hscopes (by simp) hfound
    rw [← h.scopes, hfree] at hnew
    rw [r.tagOf_none hfound, hfree, r'.tagOf_none hnew]
  · have hnew := findScope?_respell (t := t) hν hx hscopes (by simp) hfound
    rw [← h.scopes] at hnew
    have hkept : t = .top → isModule = false → ν ⟨x, t⟩ = x := fun ht hscript =>
      hν.top hscript ⟨x, t⟩ ht
    by_cases hfixed : (t = .top ∧ isModule = false) ∧ isFixedGlobal x = true
    · rw [hkept hfixed.1.1 hfixed.1.2] at hnew
      rw [r.tagOf_fixed hfound hfixed, hfree, r'.tagOf_fixed hnew hfixed]
    · have hfixed' : ¬((t = .top ∧ isModule = false) ∧ isFixedGlobal (ν ⟨x, t⟩) = true) := by
        rintro ⟨⟨ht, hscript⟩, hglobal⟩
        rw [hkept ht hscript] at hglobal
        exact hfixed ⟨⟨ht, hscript⟩, hglobal⟩
      rw [r.tagOf_found hfound hfixed, r'.tagOf_found hnew hfixed']

theorem refer (hν : Spells names isModule ν) (h : Lockstep ν r r') (hr : r.Names names)
    (hid : id.name ∈ names) (hstay : TagsStay (r.refer isModule id).tags T) :
    Lockstep ν (r.refer isModule id) (r'.refer isModule (respellFor ν T id)) := by
  have hnumber : (respellFor ν T id).number? = id.number? := rfl
  unfold Resolution.refer at hstay ⊢
  rw [hnumber]
  rcases hn : id.number? with _ | n
  · exact h
  simp only [hn] at hstay
  simp only [h.isOpen]
  by_cases hopen : r.isOpen n = true
  · rw [if_pos hopen] at hstay
    rw [if_pos hopen, if_pos hopen]
    have htag : tagFor T id = r.tagOf isModule id.name :=
      tagFor_of_lookup hn (hstay n _ (by simp))
    have hfound : r'.tagOf isModule (respellFor ν T id).name = r.tagOf isModule id.name := by
      show r'.tagOf isModule (ν ⟨id.name, tagFor T id⟩) = _
      rw [htag]
      exact h.tagOf hν hr hid
    exact ⟨h.scopes, h.nextScope, by rw [hfound, h.tags]⟩
  · rw [if_neg hopen, if_neg hopen]
    exact h

theorem reached (h : Lockstep ν r r') (site site' : HoistSite) (x x' : String) :
    Lockstep ν (site.reached r x) (site'.reached r' x') := by
  unfold HoistSite.reached
  split <;> split <;> exact ⟨h.scopes, h.nextScope, h.tags⟩

end Lockstep

namespace Resolution

theorem Names.declare (hr : r.Names names) (kind : DeclKind) (hid : id.name ∈ names) :
    (r.declare kind id).Names names := by
  have hadd : ∀ {s : Scope} {rest : List Scope}, r.scopes = s :: rest →
      ∀ s' ∈ s.add id.name kind :: rest, s'.Names names ∧ s'.tag ≠ .free := by
    intro s rest hscopes s' hs'
    rcases List.mem_cons.1 hs' with rfl | hs'
    · obtain ⟨hs, htag⟩ := hr s (hscopes ▸ List.mem_cons_self)
      refine ⟨fun d hd => ?_, htag⟩
      rcases List.mem_cons.1 hd with rfl | hd
      · exact hid
      · exact hs d hd
    · exact hr s' (hscopes ▸ List.mem_cons_of_mem _ hs')
  unfold Resolution.declare
  split
  · next hscopes =>
    split
    · exact hadd hscopes
    · split
      · exact hadd hscopes
      · exact hr
  · exact hr

theorem Names.reached (hr : r.Names names) (site : HoistSite) (x : String) :
    (site.reached r x).Names names := by
  unfold HoistSite.reached
  split <;> exact hr

theorem Names.run (hr : r.Names names) {s : Step} (hs : s.Names names isModule) :
    (s.run r).Names names := by
  cases s with
  | enter isFunction =>
    intro s' hs'
    rcases List.mem_cons.1 hs' with rfl | hs'
    · exact ⟨fun d hd => absurd hd List.not_mem_nil, nofun⟩
    · exact hr s' hs'
  | leave => exact fun s' hs' => hr s' (List.mem_of_mem_tail hs')
  | declare kind id => exact hr.declare kind hs
  | refer m id =>
    show (r.refer m id).Names names
    unfold Resolution.refer
    split
    · split <;> exact hr
    · exact hr
  | hoistVar site kind id =>
    rw [run_hoistVar]
    split
    · exact hr
    · exact (hr.reached site id.name).declare kind hs
  | hoistFunc site id =>
    simp only [Step.run]
    split
    · exact hr
    · exact hr.declare .func hs
  | startList | startHandler | endHandler => exact hr

end Resolution

/-- One step in lockstep: the same declarations being hoisted, the states differ in spellings only
afterwards. -/
theorem Step.run_lockstep (hν : Spells names isModule ν) (h : Lockstep ν r r') (hr : r.Names names)
    {s : Step} (hs : s.Names names isModule) (hstay : TagsStay (s.run r).tags T)
    (hkeeps : (s.map (respellFor ν T) isModule).keeps r' = s.keeps r) :
    Lockstep ν (s.run r) ((s.map (respellFor ν T) isModule).run r') := by
  cases s with
  | enter isFunction =>
    refine ⟨?_, congrArg (· + 1) h.nextScope, h.tags⟩
    simp [Step.run, Step.map, h.scopes, h.nextScope, Scope.respell]
  | leave =>
    refine ⟨?_, h.nextScope, h.tags⟩
    simp [Step.run, Step.map, h.scopes, List.map_tail]
  | declare kind id => exact h.declare hν hr kind hs hstay
  | refer m id =>
    obtain ⟨rfl, hid⟩ := hs
    exact h.refer hν hr hid hstay
  | hoistVar site kind id =>
    replace hkeeps : r'.keepsVar (site.map (respellFor ν T)) (respellFor ν T id).name =
      r.keepsVar site id.name := hkeeps
    rw [run_hoistVar] at hstay ⊢
    show Lockstep ν _ ((Step.hoistVar (site.map (respellFor ν T)) kind (respellFor ν T id)).run r')
    rw [run_hoistVar, hkeeps]
    split
    · exact h
    · next hkept =>
      rw [if_neg hkept] at hstay
      exact (h.reached site _ _ _).declare hν (hr.reached site _) kind hs hstay
  | hoistFunc site id =>
    replace hkeeps : r'.keepsFunc (site.map (respellFor ν T)) (respellFor ν T id).name =
      r.keepsFunc site id.name := hkeeps
    simp only [Step.run, Step.map, hkeeps] at hstay ⊢
    split
    · exact h
    · next hkept =>
      rw [if_neg hkept] at hstay
      exact h.declare hν hr .func hs hstay
  | startList | startHandler | endHandler => exact ⟨h.scopes, h.nextScope, h.tags⟩

theorem run_lockstep (hν : Spells names isModule ν) (ss : List Step) (h : Lockstep ν r r')
    (hr : r.Names names) (hss : ∀ s ∈ ss, s.Names names isModule)
    (hstay : TagsStay (ss.foldl Step.run r).tags T)
    (hkeeps : hoistChoices r' (ss.map (Step.map (respellFor ν T) isModule)) = hoistChoices r ss) :
    Lockstep ν (ss.foldl Step.run r) ((ss.map (Step.map (respellFor ν T) isModule)).foldl Step.run r') := by
  induction ss generalizing r r' with
  | nil => exact h
  | cons s ss ih =>
    obtain ⟨hkeep, hrest⟩ := List.cons.inj hkeeps
    have hs := hss s List.mem_cons_self
    have hfirst : TagsStay (s.run r).tags T := fun n t hn =>
      hstay n t (run_stay ss (s.run r) n t hn)
    have hnext := Step.run_lockstep hν h hr hs hfirst hkeep
    exact ih hnext (hr.run hs) (fun s' hs' => hss s' (List.mem_cons_of_mem _ hs')) hstay hrest

/-- Which declarations resolution does not hoist in a program. -/
def Program.hoistChoices (p : Program) : List Bool := Untangle.hoistChoices .start p.numbered.steps

theorem tags_respelled (hν : Spells names isModule ν) {P P' : Program}
    (hsteps : P'.steps = P.steps.map (Step.map (respellFor ν P.tags) isModule))
    (hnames : ∀ s ∈ P.steps, s.Names names isModule)
    (hkeeps : Untangle.hoistChoices .start P'.steps = Untangle.hoistChoices .start P.steps) :
    P'.tags = P.tags := by
  have hstart : Lockstep ν .start .start := ⟨rfl, rfl, rfl⟩
  have hnone : Resolution.start.Names names := by
    intro s hs
    obtain rfl := List.mem_singleton.1 hs
    exact ⟨fun d hd => absurd hd List.not_mem_nil, nofun⟩
  rw [hsteps] at hkeeps
  have hrun := run_lockstep hν P.steps hstart hnone hnames (fun _ _ h => h) hkeeps
  unfold Program.tags
  rw [hsteps]
  exact hrun.tags

end Untangle
