import Mathlib.Data.List.Basic

/-! A theme's templates: the check of their ranges and the run of the template language. -/
namespace Kitp.ThemeTemplates

/-- What `idealConstant` makes of a number's text. -/
inductive Ideal where
  | int
  | inexact (truth : Bool)
  | overflow

structure Number where
  isInt : Bool
  int64 : Int
  ideal : Ideal

mutual
inductive Pipe where
  | mk (isAssign : Bool) (decl : List String) (cmds : List (List Arg))

inductive Arg where
  | field (ident : List String)
  | chain (node : Arg) (field : List String)
  | identifier (ident : String)
  | pipe (p : Pipe)
  | variable (name : String) (field : List String)
  | bool (b : Bool)
  | dot
  | nil
  | number (n : Number)
  | string (text : String)
end

def Pipe.isAssign : Pipe → Bool
  | .mk isAssign _ _ => isAssign

def Pipe.decl : Pipe → List String
  | .mk _ decl _ => decl

def Pipe.cmds : Pipe → List (List Arg)
  | .mk _ _ cmds => cmds

inductive Node where
  | text
  | action (pipe : Pipe)
  | ifs (pipe : Pipe) (list elseList : List Node)
  | range (pipe : Pipe) (list elseList : List Node)
  | within (pipe : Pipe) (list elseList : List Node)
  | template (name : String) (pipe : Option Pipe)
  | brk
  | cont

def maxRangeLiteral : Int := 10000

def fits : Arg → Bool
  | .number num => num.isInt∧num.int64 ≤ maxRangeLiteral
  | _ => true

/-- What is asked of a range's pipeline. -/
def checkPipe (p : Pipe) : Bool := p.cmds.all (·.all fits)

mutual
def checkRanges : Node → Bool
  | .range pipe list elseList => checkPipe pipe&&(checkList list&&checkList elseList)
  | .ifs _ list elseList => checkList list&&checkList elseList
  | .within _ list elseList => checkList list&&checkList elseList
  | .text => true
  | .action _ => true
  | .template _ _ => true
  | .brk => true
  | .cont => true

def checkList : List Node → Bool
  | [] => true
  | n::ns => checkRanges n&&checkList ns
end

/-- The parsed templates, by name. -/
abbrev Templates := List (String×List Node)

inductive Datum (D : Type) where
  | nil
  | bool (b : Bool)
  | int (n : Int)
  | inexact (truth : Bool)
  | string (text : String)
  | obj (d : D)

/-- A value, and whether it comes from the template's own text. -/
structure Value (D : Type) where
  datum : Datum D
  own : Bool

/-- The site's data, and the functions of the template language other than `and` and `or`. -/
structure Site (D : Type) where
  field : Datum D → String → List (Value D) → Option (Datum D)
  truth : D → Bool
  elems : D → Option (List (Datum D×Datum D))
  func : String → List (Value D) → Option (Datum D)
  prints : Value D → Bool

variable {D : Type}

abbrev Vars (D : Type) := List (String×Value D)

def Site.isTrue (s : Site D) (v : Value D) : Bool :=
  match v.datum with
  | .nil => false
  | .bool b => b
  | .int n => n≠0
  | .inexact truth => truth
  | .string text => text≠""
  | .obj d => s.truth d

def idealConstant (num : Number) : Option (Value D) :=
  match num.ideal with
  | .int => if num.isInt then some ⟨.int num.int64,true⟩ else none
  | .inexact truth => some ⟨.inexact truth,true⟩
  | .overflow => none

def setVar (name : String) (v : Value D) : Vars D → Option (Vars D)
  | [] => none
  | x::vars => if x.1=name then some ((name,v)::vars) else (setVar name v vars).map (x::·)

/-- `evalFieldChain`: only the last name takes the arguments. -/
def evalFieldChain (s : Site D) (args : List (Value D)) : Value D → List String → Option (Value D)
  | v,[] => some v
  | v,[name] => (s.field v.datum name args).map (⟨·,false⟩)
  | v,name::names => do
    let d ← s.field v.datum name []
    evalFieldChain s args ⟨d,false⟩ names

/-- The variables after the declarations of a pipeline. -/
def declare (isAssign : Bool) (v : Value D) : List String → Vars D → Option (Vars D)
  | [],vars => some vars
  | name::decl,vars => do
    let vars ← if isAssign then setVar name v vars else some ((name,v)::vars)
    declare isAssign v decl vars

-- pipelines are evaluated with fuel; none also stands for an error
mutual
def evalPipeline (s : Site D) (dot : Value D) : Nat → Pipe → Vars D → Option (Value D×Vars D)
  | 0,_,_ => none
  | f+1,.mk isAssign decl cmds,vars => do
    let (v,vars) ← evalCommands s dot f cmds none vars
    let v ← v
    return (v,← declare isAssign v decl vars)

def evalCommands (s : Site D) (dot : Value D) : Nat → List (List Arg) → Option (Value D) →
    Vars D → Option (Option (Value D)×Vars D)
  | 0,_,_,_ => none
  | _+1,[],final,vars => some (final,vars)
  | f+1,cmd::cmds,final,vars => do
    let (v,vars) ← evalCommand s dot f cmd final vars
    evalCommands s dot f cmds (some v) vars

def evalCommand (s : Site D) (dot : Value D) : Nat → List Arg → Option (Value D) →
    Vars D → Option (Value D×Vars D)
  | 0,_,_,_ => none
  | _+1,[],_,_ => none
  | f+1,firstWord::args,final,vars =>
    match firstWord with
    | .field ident => do
      let (vs,vars) ← evalArgs s dot f args vars
      return (← evalFieldChain s (vs++final.toList) dot ident,vars)
    | .chain node field => do
      let (v,vars) ← evalArg s dot f node vars
      let (vs,vars) ← evalArgs s dot f args vars
      return (← evalFieldChain s (vs++final.toList) v field,vars)
    | .identifier ident => evalFunction s dot f ident args final vars
    | .variable name field => do
      let v ← vars.lookup name
      if field=[]∧(args≠[]∨final.isSome) then none
      let (vs,vars) ← evalArgs s dot f args vars
      return (← evalFieldChain s (vs++final.toList) v field,vars)
    | .nil => none
    | word => if args≠[]∨final.isSome then none else evalArg s dot f word vars

/-- `evalFunction`: `and` and `or` stop at the argument that decides. -/
def evalFunction (s : Site D) (dot : Value D) : Nat → String → List Arg → Option (Value D) →
    Vars D → Option (Value D×Vars D)
  | 0,_,_,_,_ => none
  | f+1,ident,args,final,vars =>
    if ident="and"∨ident="or" then evalUntil s dot f (ident="or") args final vars
    else do
      let (vs,vars) ← evalArgs s dot f args vars
      let vs := vs++final.toList
      let d ← s.func ident vs
      return (⟨d,vs.all (·.own)⟩,vars)

def evalUntil (s : Site D) (dot : Value D) : Nat → Bool → List Arg → Option (Value D) →
    Vars D → Option (Value D×Vars D)
  | 0,_,_,_,_ => none
  | _+1,_,[],final,vars => final.map (·,vars)
  | f+1,stop,arg::args,final,vars => do
    let (v,vars) ← evalArg s dot f arg vars
    if s.isTrue v=stop∨(args=[]∧final=none) then some (v,vars)
    else evalUntil s dot f stop args final vars

def evalArgs (s : Site D) (dot : Value D) : Nat → List Arg → Vars D →
    Option (List (Value D)×Vars D)
  | 0,_,_ => none
  | _+1,[],vars => some ([],vars)
  | f+1,arg::args,vars => do
    let (v,vars) ← evalArg s dot f arg vars
    let (vs,vars) ← evalArgs s dot f args vars
    return (v::vs,vars)

def evalArg (s : Site D) (dot : Value D) : Nat → Arg → Vars D → Option (Value D×Vars D)
  | 0,_,_ => none
  | f+1,arg,vars =>
    match arg with
    | .field ident => (evalFieldChain s [] dot ident).map (·,vars)
    | .chain node field => do
      let (v,vars) ← evalArg s dot f node vars
      return (← evalFieldChain s [] v field,vars)
    | .identifier ident => evalFunction s dot f ident [] none vars
    | .pipe p => evalPipeline s dot f p vars
    | .variable name field => do
      let v ← vars.lookup name
      return (← evalFieldChain s [] v field,vars)
    | .bool b => some (⟨.bool b,true⟩,vars)
    | .dot => some (dot,vars)
    | .nil => some (⟨.nil,true⟩,vars)
    | .number num => (idealConstant num).map (·,vars)
    | .string text => some (⟨.string text,true⟩,vars)
end

inductive Stop where
  | brk
  | cont
  | fail

/-- A run's variables, and what its ranges iterated over so far. -/
structure State (D : Type) where
  vars : Vars D
  ranged : List (Pipe×Value D)

def State.pop (mark : Nat) (st : State D) : State D :=
  { st with vars := st.vars.drop (st.vars.length-mark) }

/-- `setTopVar`. -/
def setTopVar (n : Nat) (v : Value D) (vars : Vars D) : Vars D :=
  vars.modify (n-1) fun x => (x.1,v)

/-- The variables of one iteration. -/
def setLoopVars (p : Pipe) (index elem : Value D) (vars : Vars D) : Option (Vars D) :=
  match p.decl with
  | [] => some vars
  | [x] => if p.isAssign then setVar x elem vars else some (setTopVar 1 elem vars)
  | x::y::_ =>
    if p.isAssign then (setVar x index vars).bind (setVar y elem)
    else some (setTopVar 2 index (setTopVar 1 elem vars))

/-- The iterations of a range, from iteration i on. -/
def iterate (body : Value D → Value D → State D → Option Stop×State D)
    (next : Nat → Option (Value D×Value D)) : Nat → Nat → State D → Option Stop×State D
  | 0,_,st => (some .fail,st)
  | k+1,i,st =>
    match next i with
    | none => (none,st)
    | some (index,elem) =>
      match body index elem st with
      | (some .brk,st) => (none,st)
      | (some .fail,st) => (some .fail,st)
      | (_,st) => iterate body next k (i+1) st

/-- What a range iterates over, if it can. -/
def Site.rangeOf (s : Site D) (p : Pipe) (v : Value D) : Option (Nat → Option (Value D×Value D)) :=
  match v.datum with
  | .int n =>
    if p.decl.length≤1 then
      some fun i => if (i : Int) < n then some (⟨.nil,true⟩,⟨.int i,v.own⟩) else none
    else none
  | .obj d => (s.elems d).map fun l i => l[i]?.map fun x => (⟨x.1,false⟩,⟨x.2,false⟩)
  | .nil => some fun _ => none
  | _ => none

def maxExecDepth : Nat := 100000

/-- The walk of a list of nodes at a depth of template calls. -/
abbrev Walk (D : Type) := Nat → Value D → List Node → State D → Option Stop×State D

/-- `walkRange`. -/
def walkRange (s : Site D) (walk : Walk D) (fuel depth : Nat) (dot : Value D) (p : Pipe)
    (list elseList : List Node) (st : State D) : Option Stop×State D :=
  match evalPipeline s dot fuel p st.vars with
  | none => (some .fail,st)
  | some (v,vars) =>
    let entered : State D := ⟨vars,st.ranged++[(p,v)]⟩
    match s.rangeOf p v with
    | none => (some .fail,entered)
    | some next =>
      let oneIteration (index elem : Value D) (st : State D) : Option Stop×State D :=
        match setLoopVars p index elem st.vars with
        | none => (some .fail,st)
        | some vars =>
          let r := walk depth elem list { st with vars }
          (r.1,r.2.pop vars.length)
      let r := if (next 0).isSome then iterate oneIteration next fuel 0 entered
        else walk depth dot elseList entered
      (r.1,r.2.pop st.vars.length)

/-- `walkIfOrWith`. -/
def walkIfOrWith (s : Site D) (walk : Walk D) (fuel depth : Nat) (dot : Value D) (isWith : Bool)
    (p : Pipe) (list elseList : List Node) (st : State D) : Option Stop×State D :=
  match evalPipeline s dot fuel p st.vars with
  | none => (some .fail,st)
  | some (v,vars) =>
    let r :=
      if s.isTrue v then walk depth (if isWith then v else dot) list { st with vars }
      else walk depth dot elseList { st with vars }
    (r.1,r.2.pop st.vars.length)

/-- `walkTemplate`: the called template starts with its own variables. -/
def walkTemplate (s : Site D) (ts : Templates) (walk : Walk D) (fuel depth : Nat) (dot : Value D)
    (name : String) (pipe : Option Pipe) (st : State D) : Option Stop×State D :=
  match ts.lookup name with
  | none => (some .fail,st)
  | some root =>
    let arg := match pipe with
      | none => some (⟨.nil,true⟩,st.vars)
      | some p => evalPipeline s dot fuel p st.vars
    match arg with
    | none => (some .fail,st)
    | some (v,vars) =>
      if depth=maxExecDepth then (some .fail,st)
      else
        let r := walk (depth+1) v root ⟨[("$",v)],st.ranged⟩
        (r.1.map fun _ => .fail,⟨vars,r.2.ranged⟩)

def walkAction (s : Site D) (fuel : Nat) (dot : Value D) (p : Pipe) (st : State D) :
    Option Stop×State D :=
  match evalPipeline s dot fuel p st.vars with
  | none => (some .fail,st)
  | some (v,vars) => if p.decl=[]∧s.prints v=false then (some .fail,st) else (none,{ st with vars })

def walkNode (s : Site D) (ts : Templates) (walk : Walk D) (fuel depth : Nat) (dot : Value D)
    (n : Node) (st : State D) : Option Stop×State D :=
  match n with
  | .text => (none,st)
  | .brk => (some .brk,st)
  | .cont => (some .cont,st)
  | .action p => walkAction s fuel dot p st
  | .ifs p list elseList => walkIfOrWith s walk fuel depth dot false p list elseList st
  | .within p list elseList => walkIfOrWith s walk fuel depth dot true p list elseList st
  | .range p list elseList => walkRange s walk fuel depth dot p list elseList st
  | .template name p => walkTemplate s ts walk fuel depth dot name p st

def walk (s : Site D) (ts : Templates) : Nat → Walk D
  | 0,_,_,_,st => (some .fail,st)
  | _+1,_,_,[],st => (none,st)
  | f+1,depth,dot,n::ns,st =>
    match walkNode s ts (walk s ts f) f depth dot n st with
    | (none,st) => walk s ts f depth dot ns st
    | (some stop,st) => (some stop,st)

/-- The ranges executed while the page is rendered. -/
def execute (s : Site D) (ts : Templates) (data : Datum D) (fuel : Nat) : List (Pipe×Value D) :=
  match ts.lookup "page.html" with
  | none => []
  | some root => (walk s ts fuel 0 ⟨data,false⟩ root ⟨[("$",⟨data,false⟩)],[]⟩).2.ranged

variable {s : Site D} {ts : Templates} {st : State D} {ns : List Node}

/-- A range that the check lets through, over the value of its pipeline. -/
structure Checked (s : Site D) (e : Pipe×Value D) : Prop where
  safe : checkPipe e.1
  value : ∃ dot f vars vars', evalPipeline s dot f e.1 vars=some (e.2,vars')

def AllChecked (s : Site D) (st : State D) : Prop := ∀ e∈st.ranged, Checked s e

/-- A walk that leaves the executed ranges checked. -/
def Keeps (s : Site D) (walk : Walk D) : Prop :=
  ∀ depth dot ns st, checkList ns → AllChecked s st → AllChecked s (walk depth dot ns st).2

variable {rec : Walk D} {fuel depth : Nat} {dot : Value D} {p : Pipe} {list elseList : List Node}

/-- The integer that a range iterates over is no large one of the template's own text. -/
def Bounded (e : Pipe×Value D) : Prop :=
  ∀ n, e.2.datum=.int n → e.2.own → n ≤ maxRangeLiteral

/-- The pipeline is a number literal and nothing else. -/
def Literal (p : Pipe) : Prop := ∃ num, p.cmds=[[.number num]]

theorem evalArg_number {f : Nat} {num : Number} {vars : Vars D} {r : Value D×Vars D}
    (h : evalArg s dot f (.number num) vars=some r) : idealConstant num=some r.1 := by
  cases f with
  | zero => simp [evalArg] at h
  | succ f =>
    rw [evalArg] at h
    obtain ⟨v,hv,rfl⟩ := Option.map_eq_some_iff.mp h
    exact hv

theorem evalCommands_number {f : Nat} {num : Number} {vars : Vars D}
    {r : Option (Value D)×Vars D} (h : evalCommands s dot f [[.number num]] none vars=some r) :
    ∃ v, r.1=some v∧idealConstant num=some v := by
  cases f with
  | zero => simp [evalCommands] at h
  | succ f =>
    rw [evalCommands] at h
    obtain ⟨⟨v,vars'⟩,hv,h⟩ := Option.bind_eq_some_iff.mp h
    cases f with
    | zero => simp [evalCommand] at hv
    | succ f =>
      have hone : evalArg s dot f (.number num) vars=some (v,vars') := by
        simpa [evalCommand] using hv
      simp only [evalCommands,Option.some.injEq] at h
      exact ⟨v,h ▸ rfl,evalArg_number hone⟩

/-- The value of a literal is the number that was checked. -/
theorem Checked.bounded {e : Pipe×Value D} (h : Checked s e) (hp : Literal e.1) : Bounded e := by
  obtain ⟨⟨isAssign,decl,cmds⟩,v⟩ := e
  obtain ⟨num,hnum⟩ := hp
  obtain ⟨hsafe,dot,f,vars,vars',hv⟩ := h
  have hcmds : cmds=[[.number num]] := hnum
  subst hcmds
  have hfits : num.isInt∧num.int64 ≤ maxRangeLiteral := by
    simpa [checkPipe,Pipe.cmds,fits] using hsafe
  intro n hn _
  have hideal : idealConstant num=some v := by
    cases f with
    | zero => simp [evalPipeline] at hv
    | succ f =>
      rw [evalPipeline] at hv
      obtain ⟨⟨r,vars⟩,hr,hv⟩ := Option.bind_eq_some_iff.mp hv
      obtain ⟨w,rfl,hideal⟩ := evalCommands_number hr
      have hv : (declare isAssign w decl vars).bind (fun vars => some (w,vars))=some (v,vars') := hv
      obtain ⟨decls,-,hv⟩ := Option.bind_eq_some_iff.mp hv
      cases hv
      exact hideal
  rw [idealConstant] at hideal
  cases hkind : num.ideal with
  | int =>
    rw [hkind] at hideal
    simp only [hfits.1,if_true,Option.some.injEq] at hideal
    rw [← hideal] at hn
    cases hn
    exact hfits.2
  | inexact truth =>
    rw [hkind] at hideal
    cases hideal
    cases hn
  | overflow =>
    rw [hkind] at hideal
    cases hideal

end Kitp.ThemeTemplates
