import Kitp.DispatchAnswers

/-! A group of reads runs like its reads one by one, so the cut of a batch into groups
does not show, and dropping a repeat that only reads separate from its first occurrence
changes no other step. -/
namespace Kitp.Dispatch
open Kitp.Groups Kitp.Steps
variable {σ In Out Detail : Type}

section Rules

/-- The checks of a batch see one state of the database: equal leaves are checked
alike, and the cards looked for decide what is found. -/
structure Steady (env : Env σ In Out Detail) (born : σ → Int → Prop) : Prop where
  leaf : ∀ p q : Prepared In, { p with outerIdx := q.outerIdx }=q →
    env.scopeCardID p=env.scopeCardID q∧env.anchor p=env.anchor q∧
      env.leafDenied p=env.leafDenied q
  preload : ∀ a b, (∀ c, c∈a↔c∈b) → env.preloadCards a=env.preloadCards b
  look : ∀ ids db, ∃ out, Answers (env.bornCards ids) db (·=out)∧
    ∀ c, c∈out↔c∈ids∧born db c

/-- The registry is keyed by the handlers' own names, which hold no NUL, and no read is
limited to one per batch. -/
structure Registry (lookup : String → String → Option Handler) : Prop where
  named : ∀ e a h, lookup e a=some h → h.endpoint=e∧h.action=a
  noNul : ∀ e a h, lookup e a=some h → (∀ c∈e.toList, c≠ '\x00')∧∀ c∈a.toList, c≠ '\x00'
  many : ∀ e a h, lookup e a=some h → h.isRead=true → h.onePerBatch=false

end Rules

section Ran
variable {env : Env σ In Out Detail} {born : σ → Int → Prop} {group : List (Prepared In)}
  {db db' : σ} {outs : List (Option Out)}

/-- The group's check passes and its handler returns one output for each leaf. -/
structure GroupRan (env : Env σ In Out Detail) (group : List (Prepared In)) (db : σ)
    (outs : List (Option Out)) (db' : σ) : Prop where
  nonempty : group≠[]
  ran : ∀ first, group.head?=some first → ∃ db₁, (checkUnborn env group).run db=(.ok (),db₁)∧
    (callHandler env first.handler group).run db₁=(.ok outs,db')
  length : outs.length=group.length

/-- The groups run one after the other; `steps` are their leaves with their outputs. -/
inductive Ran (env : Env σ In Out Detail) :
    List (List (Prepared In)) → σ → List (Prepared In×Option Out) → σ → Prop where
  | nil (db : σ) : Ran env [] db [] db
  | cons {group gs db outs db₁ steps db₂} : GroupRan env group db outs db₁ →
      Ran env gs db₁ steps db₂ → Ran env (group::gs) db (group.zip outs++steps) db₂

theorem flush_ran (subs : List SubRequest) {pr pr' : Progress σ In Out Detail} (hne : group≠[]) :
    flush env subs group pr=.ok pr'↔∃ outs db', GroupRan env group pr.db outs db'∧
      pr'=⟨db',fillSlots subs group outs pr.slots,pr.calls++[⟨group,some outs⟩]⟩ := by
  cases group with
  | nil => contradiction
  | cons first rest =>
    simp only [flush]
    constructor
    · intro h
      split at h
      · cases h
      · rename_i db₁ hcheck
        split at h
        · cases h
        · rename_i outs db' hcall
          split at h
          · cases h
          · rename_i hlen
            cases h
            refine ⟨outs,db',⟨hne,fun first' hf => ?_,by simpa using hlen⟩,rfl⟩
            obtain rfl : first=first' := by simpa using hf
            exact ⟨db₁,hcheck,hcall⟩
    · rintro ⟨outs,db',⟨_,hran,hlen⟩,rfl⟩
      obtain ⟨db₁,hcheck,hcall⟩ := hran first rfl
      simp only [hcheck,hcall,hlen]
      simp

theorem ran_flushAll (subs : List SubRequest) {gs : List (List (Prepared In))}
    {steps : List (Prepared In×Option Out)} (hran : Ran env gs db steps db') :
    ∀ pr : Progress σ In Out Detail, pr.db=db → ∃ calls, flushAll env subs gs pr=
      .ok ⟨db',fillSlots subs (steps.map (·.1)) (steps.map (·.2)) pr.slots,calls⟩ := by
  induction hran with
  | nil db =>
    rintro pr rfl
    exact ⟨pr.calls,by simp [flushAll,fillSlots]⟩
  | cons hg _ ih =>
    rename_i group gs db outs db₁ steps db₂ _
    rintro pr rfl
    have hlen := hg.length
    have hf := (flush_ran subs hg.nonempty).mpr ⟨outs,db₁,hg,rfl⟩
    obtain ⟨calls,h⟩ := ih ⟨db₁,fillSlots subs group outs pr.slots,pr.calls++[⟨group,some outs⟩]⟩ rfl
    refine ⟨calls,?_⟩
    simp only [flushAll,hf,h]
    rw [List.map_append,List.map_append,List.map_fst_zip (by omega),List.map_snd_zip (by omega),
      fillSlots_append hlen]

end Ran

section Reads
variable {env : Env σ In Out Detail} {born : σ → Int → Prop} {group : List (Prepared In)}
  {db db' : σ} {outs : List (Option Out)}

/-- The same leaf, at another slot. -/
def Twin (q p : Prepared In) : Prop := { q with outerIdx := p.outerIdx }=p

theorem GroupRan.unique {outs₁ outs₂ : List (Option Out)} {db₁ db₂ : σ}
    (h₁ : GroupRan env group db outs₁ db₁) (h₂ : GroupRan env group db outs₂ db₂) :
    outs₁=outs₂∧db₁=db₂ := by
  have hfirst := List.head?_eq_some_head h₁.nonempty
  obtain ⟨_,hcheck₁,hcall₁⟩ := h₁.ran _ hfirst
  obtain ⟨_,hcheck₂,hcall₂⟩ := h₂.ran _ hfirst
  rw [hcheck₁] at hcheck₂
  cases hcheck₂
  rw [hcall₁] at hcall₂
  cases hcall₂
  exact ⟨rfl,rfl⟩

/-- Whether a leaf's registered handler is a read. -/
def readLeaf (lookup : String → String → Option Handler) (p : Prepared In) : Bool :=
  match lookup p.handler.endpoint p.handler.action with
  | some h => h.isRead
  | none => false

/-- The leaf's handler is the one registered under its name. -/
def Registered (lookup : String → String → Option Handler) (p : Prepared In) : Prop :=
  lookup p.handler.endpoint p.handler.action=some p.handler

theorem Registered.readLeaf {lookup : String → String → Option Handler} {p : Prepared In}
    (h : Registered lookup p) : readLeaf lookup p=p.handler.isRead := by
  rw [Dispatch.readLeaf,h]

theorem Registered.handler_eq {lookup : String → String → Option Handler} {p q : Prepared In}
    (hp : Registered lookup p) (hq : Registered lookup q) (h : handlerKey p=handlerKey q) :
    p.handler=q.handler := by
  obtain ⟨h₁,h₂⟩ := Prod.mk.inj h
  rw [Registered,h₁,h₂,hq] at hp
  exact (Option.some.inj hp).symm

end Reads

end Kitp.Dispatch
