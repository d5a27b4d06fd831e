import Lisplet.Proofs.Operators

/-! Recursive procedures. A procedure that a text defines knows itself by its name in the global
frame, and a closure that a `let` binds knows itself in the frame of the `let`. Where the operators
also have the meaning that a registry gives them, so it is in every frame in which such a procedure
runs. Procedures that count down have a test and a next number in common. -/
namespace Lisplet
open Library Session

theorem Store.bind_newFrame (store : Store) (bindings : List (String × Value))
    (parent : Option FrameId) (name : String) (v : Value) :
    (store.newFrame bindings parent).2.bind store.frames.size name v =
      (store.newFrame (bindings ++ [(name, v)]) parent).2 := by
  have hinsert : (Std.TreeMap.ofList (bindings ++ [(name, v)]) : Bindings) =
      (Std.TreeMap.ofList bindings : Bindings).insert name v := by
    rw [Std.TreeMap.ofList_eq_insertMany_empty, Std.TreeMap.ofList_eq_insertMany_empty,
      Std.TreeMap.insertMany_append, Std.TreeMap.insertMany_list_singleton]
  have hpush (frame : Frame) (f : Frame → Frame) :
      (store.frames.push frame).modify store.frames.size f = store.frames.push (f frame) := by
    grind
  simp only [newFrame, bind, hpush, hinsert]

namespace World
variable {w : World} (bindings : List (String × Value)) (parent : FrameId) (name : String)

theorem bind_newFrame {v : Value} (hv : v.captured? = none) :
    (w.newFrame bindings parent).bind w.nextFrame name v =
      w.newFrame (bindings ++ [(name, v)]) parent := by
  have hstore := w.store.bind_newFrame bindings (some parent) name v
  cases v with
  | closure c => cases hv
  | _ => exact congrArg (fun store => { w with store }) hstore

theorem bind_newFrame_closure {c : Closure} (hc : c.frame = w.nextFrame) :
    (w.newFrame bindings parent).bind w.nextFrame name (.closure c) =
      w.newFrame (bindings ++ [(name, .closure c), (name, .closure c)]) parent := by
  have hstore (bindings : List (String × Value)) :=
    w.store.bind_newFrame bindings (some parent) name (.closure c)
  rw [World.bind, hc, World.newFrame, World.nextFrame, hstore, hstore, List.append_assoc]
  rfl

structure Standard (w : World) : Prop where
  exists_global : globalFrame < w.nextFrame
  names : w.Means globalFrame operators

/-- In the frame in which the closure was made it goes by the name, and the operators by theirs. -/
structure Recursive (w : World) (name : String) (c : Closure) : Prop where
  exists_frame : c.frame < w.nextFrame
  names : w.Means c.frame ((name, .closure c) :: operators)

end World

namespace Session

/-- The call ends so and does nothing to the world but enlarge it. -/
def CallComputes (depth : Nat) (f : Value) (args : List Value) (w : World)
    (o : Except Error Value) : Prop :=
  ∃ w', w.Enlarges w' ∧ CallEnds depth f args w o w'

section
variable {depth : Nat} {frame : FrameId} {w w₁ w₂ : World} {e : Value} {o : Except Error Value}

theorem computes_iff_bigStep : Computes depth frame e w o w₁ ↔
    ∃ w', w₁.Enlarges w' ∧ BigStep (.expr depth frame e) w o w' := by
  constructor
  · rintro ⟨w', hlarger, hends⟩
    exact ⟨w', hlarger, ((hends o w').2 ⟨rfl, rfl⟩).bigStep⟩
  · rintro ⟨w', hlarger, h⟩
    exact ⟨w', hlarger, fun _ _ => h.evalEnds_iff⟩

namespace Computes

theorem of_bigStep (h : BigStep (.expr depth frame e) w o w) : Computes depth frame e w o w :=
  computes_iff_bigStep.2 ⟨w, .refl w, h⟩

theorem of_tail {frame' : FrameId} {e' : Value} (h : Computes depth frame' e' w₂ o w₂)
    (hlarger : w₁.Enlarges w₂)
    (htail : ∀ w', BigStep (.expr depth frame' e') w₂ o w' → BigStep (.expr depth frame e) w o w') :
    Computes depth frame e w o w₁ := by
  obtain ⟨w', hrest, h⟩ := computes_iff_bigStep.1 h
  exact computes_iff_bigStep.2 ⟨w', hlarger.trans hrest, htail w' h⟩

end Computes

theorem CallComputes.apply {name : String} {f : Value} {operands args : List Value}
    (h : CallComputes depth f args w₁ o) (hdepth : depth + 1 < maxEvalDepth)
    (hform : SpecialForm.ofName? name = none) (hname : w.store.lookup? frame name = some f)
    (hargs : BigStep (.exprs depth frame operands) w (.ok args) w₁) :
    Computes depth frame (call name operands) w o w₁ := by
  obtain ⟨w', hlarger, h⟩ := h
  exact computes_iff_bigStep.2
    ⟨w', hlarger, (bigStep_apply_iff_call hdepth hform hname hargs).2 h⟩

end

end Session

theorem World.Recursive.computes {w₀ w : World} {name : String} {c : Closure}
    (hc : w₀.Recursive name c) (hw : w₀.Enlarges w) {depth : Nat} {args : List Value}
    {o : Except Error Value} (hcount : c.params.length = args.length)
    (hothers : ((name :: operators.map Prod.fst).all fun key =>
      ((Std.TreeMap.ofList (c.params.zip args))[key]?).isNone) = true)
    (hbody : ∀ w₁ id, w.Enlarges w₁ → w₁.HasFrame id (c.params.zip args) c.frame →
      w₁.Means id ((name, .closure c) :: operators) → Computes depth id c.body w₁ o w₁) :
    CallComputes depth (.closure c) args w o := by
  have hframe : c.frame < w.nextFrame := Nat.lt_of_lt_of_le hc.exists_frame hw.le
  have hnew : (w.newFrame (c.params.zip args) c.frame).HasFrame w.nextFrame (c.params.zip args)
      c.frame := World.hasFrame_newFrame hframe
  have hlarger := World.Enlarges.newFrame w (c.params.zip args) c.frame
  have hnames := (hc.names.enlarge hc.exists_frame (hw.trans hlarger)).inside hnew hothers
  obtain ⟨w', hrest, h⟩ := computes_iff_bigStep.1 (hbody _ _ hlarger hnew hnames)
  exact ⟨w', hlarger.trans hrest, (callEnds_closure_iff hcount).2 h⟩

namespace Session

theorem standard_start (dir : String) (console : Console) (disk : Disk) :
    (start (.standard dir) console disk).Standard where
  exists_global := nextFrame_start_pos _ _ _
  names := by
    have hbinary (op : Binary) := lookup?_start console disk (Registry.get?_standard_binary dir op)
    have htrue := lookup?_start console disk (Registry.get?_standard_true dir)
    simpa [World.Means, operators] using
      ⟨hbinary .equal, hbinary (.compare .less), hbinary .add, hbinary .sub, htrue⟩

theorem Opened.standard {w : World} (h : Opened w) : w.Standard where
  exists_global := h.wellFormed.store.nonempty
  names := by
    have hbinary (op : Binary) := h.lookup?_binary op
    simpa [World.Means, operators] using
      ⟨hbinary .equal, hbinary (.compare .less), hbinary .add, hbinary .sub, h.lookup?_true⟩

end Session

structure Definition where
  name : String
  params : List String
  body : Value
  nodup : params.Nodup := by decide
  plain : SpecialForm.ofName? name = none := by decide
  fresh : name ∉ operators.map Prod.fst := by decide

namespace Definition
variable (d : Definition)

def expression : Value :=
  SpecialForm.define.applied [.symbol d.name,
    SpecialForm.lambda.applied [.list (d.params.map .symbol), d.body]]

def closure (id : Nat) : Closure := ⟨id, d.params, d.body, globalFrame, none⟩

def install (w : World) : World :=
  w.newClosure.define globalFrame d.name (.closure (d.closure w.store.closures))

theorem bigStep_expression (w : World) :
    BigStep (.expr 0 globalFrame d.expression) w (.ok (.symbol d.name)) (d.install w) := by
  have hparams := Form.params_map_symbol d.nodup
  exact .within (by decide) (.define (.within (by decide) (.lambda hparams)))

theorem settles_load {source : String} (hread : Value.parseAll {} source = .ok [d.expression])
    (w : World) : Run.Settles (load · {} source) w (.ok (.symbol d.name)) (d.install w) := by
  obtain ⟨tokens, htokens, hcollect⟩ := Value.parseAll_eq_ok_iff.1 hread
  have hend : Outcomes w [.ok d.expression] [.ok (.symbol d.name)] (d.install w) :=
    .cons (.value (BigStep.evalEnds (d.bigStep_expression w))) .nil
  exact ((settles_load_of_outcomes htokens (hcollect ▸ hend)).1 [.symbol d.name] rfl _ _).2
    ⟨rfl, rfl⟩

theorem recursive_install {w : World} (hw : w.Standard) :
    (d.install w).Recursive d.name (d.closure w.store.closures) where
  exists_frame := by
    have hsize : (d.install w).nextFrame = w.nextFrame := Store.size_bind _ _ _ _
    exact hsize ▸ hw.exists_global
  names := by
    have hlookup (key : String) : (d.install w).store.lookup? globalFrame key =
        if d.name = key then some (.closure (d.closure w.store.closures))
        else w.newClosure.store.lookup? globalFrame key :=
      World.lookup?_define (w := w.newClosure) hw.exists_global key
    intro p hp
    obtain rfl | hp := List.mem_cons.1 hp
    · exact (hlookup d.name).trans (if_pos rfl)
    · have hne : d.name ≠ p.1 := fun h => d.fresh (h ▸ List.mem_map_of_mem hp)
      have hsame : w.newClosure.store.lookup? globalFrame p.1 = w.store.lookup? globalFrame p.1 :=
        w.lookup?_newClosure
      exact ((hlookup p.1).trans (if_neg hne)).trans (hsame.trans (hw.names p hp))

end Definition

namespace Countdown

def test : Value := call "=" [.symbol "n", .int 0]

def next : Value := call "-" [.symbol "n", .int 1]

section
variable {depth : Nat} {id : FrameId} {w : World} {i : Int}
  (hdepth : depth + 1 < maxEvalDepth) (hn : w.store.lookup? id "n" = some (.integer i))
  (hnames : w.Means id operators) (hi : InRange i)
include hdepth hn hnames hi

theorem bigStep_next (h : InRange (i - 1)) :
    BigStep (.expr depth id next) w (.ok (.integer (i - 1))) w :=
  bigStep_sub hdepth hnames (.expr_symbol hdepth hn) (.expr_integer hdepth 1) hi (by decide) h

theorem bigStep_test : BigStep (.expr depth id test) w (.ok (.bool (decide (i = 0)))) w :=
  bigStep_equal hdepth hnames (.expr_symbol hdepth hn) (.expr_integer hdepth 0) hi (by decide)

end

theorem computes_ite_test {depth : Nat} {id : FrameId} {w : World} {i : Int}
    (hdepth : depth + 2 < maxEvalDepth) (hn : w.store.lookup? id "n" = some (.integer i))
    (hnames : w.Means id operators) (hi : InRange i) {stop again : Value} {o : Except Error Value}
    (h : Computes depth id (if i = 0 then stop else again) w o w) :
    Computes depth id (SpecialForm.ite.applied [test, stop, again]) w o w :=
  h.of_tail (.refl w) fun w' htail =>
    .within (by omega) (.ite_decide (bigStep_test hdepth hn hnames hi) htail)

end Countdown

end Lisplet
