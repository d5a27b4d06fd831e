import Lisplet.Proofs.UpkeepRuns

/-! Custody of closures. What can be at hand are the values all of whose closures are of a kind, and
code is what can be at hand, in the frames that code can be evaluated in. -/
namespace Lisplet

namespace Value.Within
variable {S : Closure → Prop}

theorem applied_iff {form : SpecialForm} {operands : List Value} :
    (form.applied operands).Within S ↔ ∀ e ∈ operands, e.Within S := by
  have hhead : (Value.symbol form.name).Within S := .symbol _
  rw [SpecialForm.applied, list_iff, List.forall_mem_cons]
  exact and_iff_right hhead

theorem curried {procedure : Value} {given : List Value} (names : List String)
    (hprocedure : procedure.Within S) (hgiven : ∀ v ∈ given, v.Within S) :
    (Value.list (procedure :: given ++ names.map .symbol)).Within S := by
  refine list_iff.2 fun v hv => ?_
  obtain hv | hv := List.mem_append.1 hv
  · exact List.forall_mem_cons.2 ⟨hprocedure, hgiven⟩ v hv
  · obtain ⟨name, -, rfl⟩ := List.mem_map.1 hv
    exact .symbol name

end Value.Within

theorem Value.hereditary_within (S : Closure → Prop) : Value.Hereditary (Value.Within S) where
  number := .number
  string := .string
  bool := .bool
  unspecified := .unspecified
  list_iff := Value.Within.list_iff
  help hc hhelp := (Value.Within.closure_iff.1 hc).2.2 _ hhelp
  composed_iff := Value.Within.composed_iff
  readable := .of_readable

/-- Stages of runs with the closures that can be at hand. -/
structure Custody (σ : Type) where
  world : σ → World
  Later : σ → σ → Prop
  Frame : σ → FrameId → Prop
  Has : σ → Closure → Prop
  Asks : σ → Reply → Prop
  refl : ∀ s, Later s s
  trans : ∀ {s s₁ s'}, Later s s₁ → Later s₁ s' → Later s s'
  frame_mono : ∀ {s s' id}, Later s s' → Frame s id → Frame s' id
  has_mono : ∀ {s s' c}, Later s s' → Has s c → Has s' c
  captured : ∀ {s c}, Has s c → Frame s c.frame
  root : ∀ {s id}, Frame s id → Frame s ((world s).store.root id)
  lookup : ∀ {s id name v}, Frame s id → (world s).store.lookup? id name = some v →
    v.Within (Has s)
  keep : ∀ {s w}, w.store = (world s).store → w.host = (world s).host →
    ∃ s', world s' = w ∧ Later s s'
  newFrame : ∀ {s parent bindings}, Frame s parent →
    (∀ name v, (name, v) ∈ bindings → v.Within (Has s)) →
      ∃ s', world s' = (world s).newFrame bindings parent ∧ Later s s' ∧
        Frame s' (world s).nextFrame
  newClosure : ∀ {s params body frame help}, params.Nodup → Frame s frame →
    body.Within (Has s) → (∀ v, help = some v → v.Within (Has s)) →
      ∃ s', world s' = (world s).newClosure ∧ Later s s' ∧
        ((world s).closure params body frame help).Within (Has s')
  write : ∀ {s id v} (name : String), Frame s id → v.Within (Has s) →
    ∃ s', world s' = { world s with store := (world s).store.bind id name v } ∧ Later s s'
  host : ∀ {s} {slot : Nat} {operation args}, (world s).host[slot]? = some operation →
    (∀ v ∈ args, v.Within (Has s)) → Asks s (operation args)
  finish : ∀ {s o}, Asks s (.finish o) → ∀ v ∈ outcomeValues (fun v => [v]) o, v.Within (Has s)
  call : ∀ {s f args resume}, Asks s (.call f args resume) →
    f.Within (Has s) ∧ (∀ v ∈ args, v.Within (Has s)) ∧
      ∀ s' result, Later s s' → (∀ v ∈ outcomeValues (fun v => [v]) result, v.Within (Has s')) →
        Asks s' (resume result)

namespace Custody
variable {σ : Type} (C : Custody σ) {s : σ}

theorem within_mono {s' : σ} (h : C.Later s s') {v : Value} (hv : v.Within (C.Has s)) :
    v.Within (C.Has s') :=
  hv.mono fun _ => C.has_mono h

theorem entered {c : Closure} (h : (Value.closure c).Within (C.Has s)) :
    C.Frame s c.frame ∧ c.body.Within (C.Has s) :=
  ⟨C.captured (Value.Within.closure_iff.1 h).1, (Value.Within.closure_iff.1 h).2.1⟩

theorem bind {frame : FrameId} {name : String} {v : Value} (hframe : C.Frame s frame)
    (hv : v.Within (C.Has s)) :
    ∃ s', C.world s' = (C.world s).bind frame name v ∧ C.Later s s' := by
  cases v with
  | closure c =>
    obtain ⟨s₁, hs₁, h₁⟩ := C.write name (C.entered hv).1 hv
    obtain ⟨s₂, hs₂, h₂⟩ := C.write name (C.frame_mono h₁ hframe) (C.within_mono h₁ hv)
    refine ⟨s₂, ?_, C.trans h₁ h₂⟩
    rw [hs₂, hs₁]
    rfl
  | _ => exact C.write name hframe hv

def upkeep : Upkeep σ where
  world := C.world
  Later := C.Later
  Frame := C.Frame
  Inner := C.Frame
  Has s v := v.Within (C.Has s)
  Code s frame e := C.Frame s frame ∧ e.Within (C.Has s)
  Asks := C.Asks
  Calls _ _ _ := True
  refl := C.refl
  trans := C.trans
  frame_mono := C.frame_mono
  inner_mono := C.frame_mono
  has_mono h hv := C.within_mono h hv
  code_mono h he := ⟨C.frame_mono h he.1, C.within_mono h he.2⟩
  hereditary _ := Value.hereditary_within _
  frame_of_inner := id
  code_of_has := And.intro
  code_form_iff := and_congr_right fun _ => Value.Within.applied_iff
  code_application h := by
    obtain ⟨hf, hoperands⟩ := List.forall_mem_cons.1 (Value.Within.list_iff.1 h.2)
    exact ⟨⟨h.1, hf⟩, fun e he => ⟨h.1, hoperands e he⟩⟩
  has_self h _ _ := h.2
  lookup h := C.lookup h.1
  keep := C.keep
  newFrame hframe := C.newFrame hframe fun _ _ h => nomatch h
  enter {s c args} hc hargs _ _ := by
    obtain ⟨hframe, hbody⟩ := C.entered hc
    have hbindings (name : String) (v : Value) (hmem : (name, v) ∈ c.params.zip args) :
        v.Within (C.Has s) :=
      hargs v (List.of_mem_zip hmem).2
    obtain ⟨s', hs', hle, hinner⟩ := C.newFrame hframe hbindings
    exact ⟨s', hs', hle, hinner, C.within_mono hle hbody⟩
  lambda hframe _ hparams hbody hhelp :=
    C.newClosure (Form.params_eq_ok_iff.1 hparams).1 hframe hbody hhelp
  curry hframe hprocedure hgiven _ _ hnames :=
    C.newClosure (hnames ▸ Form.nodup_curriedParams _) hframe
      (.curried _ hprocedure hgiven) fun _ h => nomatch h
  define {s frame name v} hframe _ hv := C.write name (C.root hframe) hv
  bind hframe _ hv := C.bind hframe hv
  host := C.host
  finish := C.finish
  call := C.call

end Custody

end Lisplet
