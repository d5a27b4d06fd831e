import Lisplet.Proofs.Composition
import Lisplet.Proofs.Integers
import Lisplet.Proofs.Library
import Lisplet.Proofs.Seclusion

/-! Evaluation in the frame of a call. What the frame binds is what the call was given; the names of
the library and of the builtins mean what they mean in the global frame. -/
namespace Lisplet
open Library Session

namespace World

/-- The frame binds the names to the values, as they were given to it, and stands inside an older
frame. -/
structure HasFrame (w : World) (id : FrameId) (bindings : List (String × Value))
    (parent : FrameId) : Prop where
  eq : w.store.frames[id]? = some ⟨.ofList bindings, some parent⟩
  lt : parent < id

/-- In the frame the names mean what they mean in the global frame of the other world. -/
def Sees (w : World) (frame : FrameId) (names : List String) (w₀ : World) : Prop :=
  ∀ name ∈ names, w.store.lookup? frame name = w₀.store.lookup? globalFrame name

def KeepsNames (w : World) (names : List String) (w₀ : World) : Prop := w.Sees globalFrame names w₀

/-- The second world has at most frames and closures that the first has not. All else is as it was.
-/
structure Enlarges (w w' : World) : Prop where
  le : w.nextFrame ≤ w'.nextFrame
  frames : ∀ id < w.nextFrame, w'.store.frames[id]? = w.store.frames[id]?
  console : w'.console = w.console
  disk : w'.disk = w.disk
  host : w'.host = w.host
  hostDepth : w'.hostDepth = w.hostDepth

namespace Enlarges
variable {w w₁ w' : World}

theorem refl (w : World) : w.Enlarges w :=
  ⟨Nat.le_refl _, fun _ _ => rfl, rfl, rfl, rfl, rfl⟩

theorem trans (h : w.Enlarges w₁) (h' : w₁.Enlarges w') : w.Enlarges w' where
  le := Nat.le_trans h.le h'.le
  frames id hid := (h'.frames id (Nat.lt_of_lt_of_le hid h.le)).trans (h.frames id hid)
  console := h'.console.trans h.console
  disk := h'.disk.trans h.disk
  host := h'.host.trans h.host
  hostDepth := h'.hostDepth.trans h.hostDepth

theorem newFrame (w : World) (bindings : List (String × Value)) (parent : FrameId) :
    w.Enlarges (w.newFrame bindings parent) := by
  refine ⟨?_, fun _ hid => frames_newFrame_of_lt hid, rfl, rfl, rfl, rfl⟩
  rw [nextFrame_newFrame]
  exact Nat.le_succ _

theorem newClosure (w : World) : w.Enlarges w.newClosure :=
  ⟨Nat.le_refl _, fun _ _ => rfl, rfl, rfl, rfl, rfl⟩

end Enlarges

section
variable {w w' : World} {id parent : FrameId} {bindings : List (String × Value)}
  {name : String} {v : Value}

theorem hasFrame_newFrame (hparent : parent < w.nextFrame) :
    (w.newFrame bindings parent).HasFrame w.nextFrame bindings parent where
  eq := Array.getElem?_push_size
  lt := hparent

namespace HasFrame

theorem lt_nextFrame (h : w.HasFrame id bindings parent) : id < w.nextFrame :=
  (Array.getElem?_eq_some_iff.1 h.eq).1

theorem exists_parent (h : w.HasFrame id bindings parent) : parent < w.nextFrame :=
  Nat.lt_trans h.lt h.lt_nextFrame

theorem of_frames_eq (h : w.HasFrame id bindings parent)
    (heq : w'.store.frames[id]? = w.store.frames[id]?) : w'.HasFrame id bindings parent :=
  ⟨heq.trans h.eq, h.lt⟩

theorem enlarge (h : w.HasFrame id bindings parent) (hw : w.Enlarges w') :
    w'.HasFrame id bindings parent :=
  h.of_frames_eq (hw.frames id h.lt_nextFrame)

theorem lookup?_eq (h : w.HasFrame id bindings parent) (name : String) :
    w.store.lookup? id name =
      ((Std.TreeMap.ofList bindings)[name]?).or (w.store.lookup? parent name) := by
  have hlocal : w.store.local? id name = (Std.TreeMap.ofList bindings)[name]? := by
    rw [Store.local?, h.eq]
    rfl
  have hparent : w.store.parent? id = some parent := by
    rw [Store.parent?, h.eq]
    simp [h.lt]
  rw [Store.lookup?_eq_or, hlocal, hparent]
  rfl

theorem bound (h : w.HasFrame id bindings parent)
    (hname : (Std.TreeMap.ofList bindings)[name]? = some v) :
    w.store.lookup? id name = some v := by
  rw [h.lookup?_eq, hname]
  rfl

theorem sees (h : w.HasFrame id bindings parent) {names : List String} {w₀ : World}
    (hsees : w.Sees parent names w₀)
    (hothers : (names.all fun name => ((Std.TreeMap.ofList bindings)[name]?).isNone) = true) :
    w.Sees id names w₀ := by
  intro name hname
  have hother := Option.isNone_iff_eq_none.1 (List.all_eq_true.1 hothers name hname)
  rw [h.lookup?_eq, hother, Option.none_or]
  exact hsees name hname

end HasFrame

end

namespace KeepsNames
variable {names : List String} {w₀ w w' : World}

theorem of_frames_eq (h : w.KeepsNames names w₀)
    (heq : w'.store.frames[globalFrame]? = w.store.frames[globalFrame]?) :
    w'.KeepsNames names w₀ := by
  intro name hname
  rw [← h name hname, globalFrame, Store.lookup?_zero, Store.lookup?_zero, Store.local?,
    Store.local?, ← globalFrame, heq]

theorem enlarge (h : w.KeepsNames names w₀) (hw : globalFrame < w.nextFrame)
    (hlarger : w.Enlarges w') : w'.KeepsNames names w₀ :=
  h.of_frames_eq (hlarger.frames globalFrame hw)

theorem mono {others : List String} (h : w.KeepsNames names w₀) (hsubset : others ⊆ names) :
    w.KeepsNames others w₀ :=
  fun name hname => h name (hsubset hname)

theorem inside (h : w.KeepsNames names w₀) {id : FrameId} {bindings : List (String × Value)}
    (hframe : w.HasFrame id bindings globalFrame) (others : List (String × Value)) :
    (w.newFrame others id).HasFrame w.nextFrame others id ∧
      (w.newFrame others id).HasFrame id bindings globalFrame ∧
      (w.newFrame others id).KeepsNames names w₀ :=
  ⟨hasFrame_newFrame hframe.lt_nextFrame, hframe.enlarge (.newFrame w others id),
    h.enlarge (Nat.zero_lt_of_lt hframe.lt_nextFrame) (.newFrame w others id)⟩

end KeepsNames

namespace Sees
variable {names : List String} {w₀ w : World} {frame : FrameId} (h : w.Sees frame names w₀)
  (hopen : Opened w₀)
include h hopen

theorem entry {entry : Entry} {i : Nat} (hentry : entries[i]? = some entry)
    (hname : entry.name ∈ names) :
    w.store.lookup? frame entry.name = some (.closure (entry.closure i)) :=
  (h _ hname).trans (hopen.lookup?_entry hentry)

theorem unary (op : Unary) (hname : op.name ∈ names) :
    w.store.lookup? frame op.name = some (.builtin (.unary op)) :=
  (h _ hname).trans (hopen.lookup?_unary op)

theorem binary (op : Binary) (hname : op.name ∈ names) :
    w.store.lookup? frame op.name = some (.builtin (.binary op)) :=
  (h _ hname).trans (hopen.lookup?_binary op)

end Sees

end World

section
variable {depth : Nat} {frame : FrameId} {w w₁ w' : World} {name : String} {operands : List Value}
  {o : Except Error Value}

theorem bigStep_apply_builtin {b : Builtin} {args : List Value} (hdepth : depth + 1 < maxEvalDepth)
    (hform : SpecialForm.ofName? name = none)
    (hname : w.store.lookup? frame name = some (.builtin b))
    (hargs : BigStep (.exprs depth frame operands) w (.ok args) w₁)
    (hrun : ∀ w, BigStep (.builtin b args) w o w) :
    BigStep (.expr depth frame (call name operands)) w o w₁ := by
  have hend := BigStep.builtin (f := .symbol name) hform (.expr_symbol hdepth hname) hargs
    (hrun _)
  exact .within (Nat.lt_of_succ_lt hdepth) hend

theorem SpecialForm.ofName?_unary (op : Unary) : ofName? op.name = none := by
  cases op <;> decide

theorem bigStep_apply_unary (op : Unary) {v : Value} (hdepth : depth + 1 < maxEvalDepth)
    (hop : w.store.lookup? frame op.name = some (.builtin (.unary op)))
    (hname : w.store.lookup? frame name = some v) (hrun : ∀ w, (op.run v).Ends w o w) :
    BigStep (.expr depth frame (call op.name [.symbol name])) w o w :=
  bigStep_apply_builtin hdepth (SpecialForm.ofName?_unary op) hop
    (.exprs_one (.expr_symbol hdepth hname)) fun w => .unary (hrun w)

theorem SpecialForm.ofName?_binary (op : Binary) : ofName? op.name = none := by
  cases op with
  | compare c => cases c <;> decide
  | _ => decide

theorem bigStep_operator (op : Binary) (hother : op ≠ .readWithMacro) {a b x y : Value}
    {w₂ : World} (hdepth : depth + 1 < maxEvalDepth)
    (hop : w.store.lookup? frame op.name = some (.builtin (.binary op)))
    (ha : BigStep (.expr (depth + 1) frame a) w (.ok x) w₁)
    (hb : BigStep (.expr (depth + 1) frame b) w₁ (.ok y) w₂)
    (hrun : ∀ apply w, (op.run apply x y).Ends w o w) :
    BigStep (.expr depth frame (call op.name [a, b])) w o w₂ :=
  bigStep_apply_builtin hdepth (SpecialForm.ofName?_binary op) hop (.exprsCons ha (.exprs_one hb))
    fun w => .binary hother fun apply => hrun apply w

theorem bigStep_apply_binary (op : Binary) (hother : op ≠ .readWithMacro) {second : String}
    {v u : Value} (hdepth : depth + 1 < maxEvalDepth)
    (hop : w.store.lookup? frame op.name = some (.builtin (.binary op)))
    (hname : w.store.lookup? frame name = some v) (hsecond : w.store.lookup? frame second = some u)
    (hrun : ∀ apply w, (op.run apply v u).Ends w o w) :
    BigStep (.expr depth frame (call op.name [.symbol name, .symbol second])) w o w :=
  bigStep_operator op hother hdepth hop (.expr_symbol hdepth hname) (.expr_symbol hdepth hsecond)
    hrun

theorem CallEnds.builtin_pure {b : Builtin} {args : List Value}
    (hrun : ∀ w, BigStep (.builtin b args) w o w) : CallEnds depth (.builtin b) args w o w := by
  have hcall := CallEnds.builtin (hrun (w.atHostDepth (depth + 1)))
  exact hcall

theorem bigStep_apply_iff_call {procedure : Value} {args : List Value}
    (hdepth : depth + 1 < maxEvalDepth) (hform : SpecialForm.ofName? name = none)
    (hname : w.store.lookup? frame name = some procedure)
    (hargs : BigStep (.exprs depth frame operands) w (.ok args) w₁) :
    BigStep (.expr depth frame (call name operands)) w o w' ↔
      CallEnds depth procedure args w₁ o w' := by
  rw [bigStep_expr_iff (Nat.lt_of_succ_lt hdepth), call]
  exact bigStep_application_iff_call hform (.expr_symbol hdepth hname) hargs

theorem bigStep_apply_closure_iff {c : Closure} {args : List Value}
    (hdepth : depth + 1 < maxEvalDepth) (hform : SpecialForm.ofName? name = none)
    (hname : w.store.lookup? frame name = some (.closure c))
    (hargs : BigStep (.exprs depth frame operands) w (.ok args) w₁)
    (hcount : c.params.length = args.length) :
    BigStep (.expr depth frame (call name operands)) w o w' ↔
      BigStep (.expr depth w₁.nextFrame c.body) (w₁.newFrame (c.params.zip args) c.frame) o w' :=
  (bigStep_apply_iff_call hdepth hform hname hargs).trans (callEnds_closure_iff hcount)

end

namespace Library
variable {depth : Nat} {frame : FrameId} {w w₁ : World}

theorem same_nil (xs : List Value) : (Value.list xs).same .nil = xs.isEmpty := by
  cases xs <;> simp [Value.same, Value.sameAll]

theorem bigStep_emptyTest {w₀ : World} (hopen : Opened w₀) {names : List String}
    (hempty : "empty?" ∈ names) (hequal : "=" ∈ names) (hdepth : depth + 1 < maxEvalDepth)
    (hsees : w.Sees frame names w₀) (hw : globalFrame < w₁.nextFrame)
    (hnames : w₁.KeepsNames names w₀) {e : Value} {xs : List Value}
    (he : BigStep (.expr (depth + 1) frame e) w (.ok (.list xs)) w₁) :
    BigStep (.expr depth frame (call "empty?" [e])) w (.ok (.bool xs.isEmpty))
      (w₁.newFrame [("xs", .list xs)] globalFrame) := by
  have hname := hsees.entry hopen (i := 0) rfl hempty
  refine (bigStep_apply_closure_iff hdepth rfl hname (.exprs_one he) rfl).2 ?_
  have hframe : (w₁.newFrame [("xs", .list xs)] globalFrame).HasFrame w₁.nextFrame
      [("xs", .list xs)] globalFrame := World.hasFrame_newFrame hw
  have hinside : (w₁.newFrame [("xs", .list xs)] globalFrame).Sees w₁.nextFrame ["="] w₀ :=
    hframe.sees ((hnames.enlarge hw (.newFrame w₁ _ globalFrame)).mono (by simpa using hequal)) rfl
  have hargs : BigStep (.exprs depth w₁.nextFrame [.symbol "xs", .quoted .nil])
      (w₁.newFrame [("xs", .list xs)] globalFrame) (.ok [.list xs, .nil])
      (w₁.newFrame [("xs", .list xs)] globalFrame) :=
    .exprsCons (.expr_symbol hdepth (hframe.bound rfl))
      (.exprsCons (.within hdepth .quote) .exprsNil)
  refine bigStep_apply_builtin hdepth rfl (hinside.binary hopen .equal (.head _)) hargs fun w => ?_
  rw [← same_nil]
  exact .binary nofun fun _ => rfl

def successor (n : Int64) : Except Error Int64 :=
  if n.toInt + 1 ≤ Int64.maxValue.toInt then .ok (Int64.ofInt (n.toInt + 1))
  else .error (.ofArithmetic (.overflow .addition))

theorem increment_ends (n : Int64) (w : World) :
    (Unary.increment.run (.int n)).Ends w ((successor n).map .int) w := by
  have hrun : Unary.increment.run (.int n) = Run.arithmetic (Number.add (.int n) (.int 1)) := rfl
  have hone : (1 : Int64).toInt = 1 := rfl
  have hmin := n.minValue_le_toInt
  rw [hrun, successor, Number.add, Number.combine, hone, Number.ofInt?]
  by_cases hmax : n.toInt + 1 ≤ Int64.maxValue.toInt
  · rw [if_pos hmax, if_pos ⟨by omega, hmax⟩]
    rfl
  · rw [if_neg hmax, if_neg fun h => hmax h.2]
    rfl

end Library

namespace Session

/-- What a standard session asks of an expression that is to be evaluated: the world is well formed,
the host has no operations of its own, the frame is there, and so are the frames in which the
closures of the expression were made. -/
structure Ready (w : World) (frame : FrameId) (e : Value) : Prop where
  wellFormed : w.WellFormed Any
  host : w.host = #[]
  frame : frame < w.nextFrame
  made : w.store.Safe Any e

namespace Opened
variable {w₀ w : World}

theorem leads (h : Opened w₀) :
    ∃ dir console disk, Leads (start (.standard dir) console disk) w₀ := by
  obtain ⟨dir, console, disk, fuel, v, hload⟩ := h
  have hcall : Call.world fuel {} (start (.standard dir) console disk) (.load prelude) = w₀ := by
    change Run.after (loadPrelude fuel _) = w₀
    rw [hload]
    rfl
  exact ⟨dir, console, disk, hcall ▸ (Leads.refl _).call fuel {} (.load prelude)⟩

theorem wellFormed (h : Opened w₀) : w₀.WellFormed Any := by
  obtain ⟨dir, console, disk, hleads⟩ := h.leads
  exact wellFormed_of_leads (Registry.closed_standard dir) hleads

theorem ready (h : Opened w₀) (hleads : Leads w₀ w) {e : Value} (he : e.Within fun _ => False) :
    Ready w globalFrame e := by
  obtain ⟨dir, console, disk, hopening⟩ := h.leads
  have hclosed := Registry.closed_standard dir
  have hleads := hopening.trans hleads
  have hw := wellFormed_of_leads hclosed hleads
  exact ⟨hw, host_of_leads hclosed hleads, hw.store.nonempty, he.mono fun _ hc => hc.elim⟩

end Opened

/-- The head of an application yields the procedure, and the operands then yield the arguments. -/
structure Applies (depth : Nat) (frame : FrameId) (head : Value) (operands : List Value) (w : World)
    (procedure : Value) (args : List Value) (w' : World) : Prop where
  form : Form.form? head = none
  parts : ∃ w₁, BigStep (.expr (depth + 1) frame head) w (.ok procedure) w₁ ∧
    BigStep (.exprs depth frame operands) w₁ (.ok args) w'

/-- The application of what the name stood for when the session was opened. -/
def AppliesNamed (w₀ : World) (name : String) (depth : Nat) (frame : FrameId) (head : Value)
    (operands : List Value) (w : World) (args : List Value) (w' : World) : Prop :=
  ∃ procedure, w₀.store.lookup? globalFrame name = some procedure ∧
    Applies depth frame head operands w procedure args w'

section
variable {depth : Nat} {frame : FrameId} {head procedure : Value} {operands args : List Value}
  {w w₁ w' : World} {o : Except Error Value}

theorem Applies.evalEnds_iff {c : Closure} (h : Applies depth frame head operands w (.closure c)
    args w₁) (hdepth : depth < maxEvalDepth) (hcount : c.params.length = args.length) :
    EvalEnds depth frame (.list (head :: operands)) w o w' ↔
      BigStep (.expr depth w₁.nextFrame c.body) (w₁.newFrame (c.params.zip args) c.frame) o w' := by
  obtain ⟨w₂, hhead, hargs⟩ := h.parts
  rw [evalEnds_iff_form hdepth]
  exact bigStep_application_iff_body h.form hhead hargs hcount

/-- The evaluation ends so and does nothing to the world but enlarge it. -/
def Computes (depth : Nat) (frame : FrameId) (e : Value) (w : World) (o : Except Error Value)
    (w₁ : World) : Prop :=
  ∃ w', w₁.Enlarges w' ∧ ∀ o' w'', EvalEnds depth frame e w o' w'' ↔ o' = o ∧ w'' = w'

theorem Applies.computes {c : Closure}
    (h : Applies depth frame head operands w (.closure c) args w₁) (hdepth : depth < maxEvalDepth)
    (hcount : c.params.length = args.length)
    (hbody : ∃ w', w₁.Enlarges w' ∧
      BigStep (.expr depth w₁.nextFrame c.body) (w₁.newFrame (c.params.zip args) c.frame) o w') :
    Computes depth frame (.list (head :: operands)) w o w₁ := by
  obtain ⟨w', hlarger, hends⟩ := hbody
  exact ⟨w', hlarger, fun o' w'' => (h.evalEnds_iff hdepth hcount).trans hends.ends_iff⟩

theorem AppliesNamed.entry {w₀ : World} (hopen : Opened w₀) {entry : Entry} {i : Nat}
    (hentry : entries[i]? = some entry)
    (h : AppliesNamed w₀ entry.name depth frame head operands w args w₁) :
    Applies depth frame head operands w (.closure (entry.closure i)) args w₁ := by
  obtain ⟨procedure, hname, happlies⟩ := h
  obtain rfl := Option.some.inj (hname.symm.trans (hopen.lookup?_entry hentry))
  exact happlies

theorem Opened.appliesNamed (hopen : Opened w) {entry : Entry} {i : Nat}
    (hentry : entries[i]? = some entry) (hdepth : depth + 1 < maxEvalDepth)
    (hform : SpecialForm.ofName? entry.name = none)
    (hargs : BigStep (.exprs depth globalFrame operands) w (.ok args) w₁) :
    AppliesNamed w entry.name depth globalFrame (.symbol entry.name) operands w args w₁ :=
  ⟨_, hopen.lookup?_entry hentry, hform, w, .expr_symbol hdepth (hopen.lookup?_entry hentry), hargs⟩

theorem Ready.applies (h : Ready w frame (.list (head :: operands)))
    (happlies : Applies depth frame head operands w procedure args w₁) :
    w₁.Apart (fun _ => False) args := by
  obtain ⟨w₂, hhead, hargs⟩ := happlies.parts
  have hw := h.wellFormed.hides h.host
  have hmade := Value.Within.mono (T := fun c => w.Visible (fun _ => False) c.frame)
    (fun c hc => ⟨hc.1, id⟩) h.made
  have hadmits : (World.seclusion fun _ => False).upkeep.Admits ⟨w, hw⟩
      (.form depth frame (.list (head :: operands))) := ⟨⟨⟨h.frame, id⟩, hmade⟩, fun _ => trivial⟩
  obtain ⟨s, rfl, hby, -, hvs⟩ := hadmits.invoke happlies.form hhead hargs
  have hglobal : globalFrame < w.nextFrame := h.wellFormed.store.nonempty
  exact ⟨s.2, ⟨Nat.lt_of_lt_of_le hglobal hby.le, id⟩, hvs⟩

end

end Session

end Lisplet
