import Lisplet.Proofs.Custody

/-! A ledger lists all closures that have been made, each under its number. No run leads to a
closure that is not listed, so the number of a closure says which one it is. -/
namespace Lisplet

theorem Reply.Draws.mono {S T : Closure → Prop} {r : Reply} (h : r.Draws S)
    (hle : ∀ c, S c → T c) : r.Draws T := by
  cases h with
  | finish hresult => exact .finish (OutcomeWithin.mono hle hresult)
  | call hf hargs hresume =>
    exact .call (hf.mono hle) (fun v hv => (hargs v hv).mono hle)
      fun U hU => hresume U fun c hc => hU c (hle c hc)

theorem outcomeWithin_iff {S : Closure → Prop} {o : Except Error Value} :
    OutcomeWithin S o ↔ ∀ v ∈ outcomeValues (fun v => [v]) o, v.Within S := by
  cases o with
  | ok v => exact (List.forall_mem_singleton (p := Value.Within S)).symm
  | error e => exact Iff.rfl

/-- The closure stands in the list at its number. -/
def Listed (closures : List Closure) (c : Closure) : Prop := closures[c.id]? = some c

theorem Listed.mono {closures closures' : List Closure} {c : Closure} (h : Listed closures c)
    (hle : closures <+: closures') : Listed closures' c := by
  obtain ⟨added, rfl⟩ := hle
  rw [Listed, List.getElem?_append_left (List.getElem?_eq_some_iff.1 h).1]
  exact h

theorem listed_concat (closures : List Closure) {c : Closure} (h : c.id = closures.length) :
    Listed (closures ++ [c]) c := by
  rw [Listed, h, List.getElem?_concat_length]

/-- A world in which every closure that can be found is listed, and the list of all that were made
up to it. -/
structure Ledger where
  closures : List Closure
  world : World
  wellFormed : world.WellFormed (Listed closures)
  length_eq : closures.length = world.store.closures
  nodup : ∀ c ∈ closures, c.params.Nodup

namespace Ledger

structure Later (L L' : Ledger) : Prop where
  closures : L.closures <+: L'.closures
  store : L.world.store.Extends L'.world.store
  host : L'.world.host = L.world.host

def Has (L : Ledger) : Closure → Prop := L.world.store.Made (Listed L.closures)

variable {L L' : Ledger} {c : Closure}

theorem Has.mono (h : L.Later L') (hc : L.Has c) : L'.Has c :=
  ⟨Nat.lt_of_lt_of_le hc.1 h.store.size_le, hc.2.mono h.closures⟩

theorem Has.id_lt (hc : L.Has c) : c.id < L.world.store.closures := by
  rw [← L.length_eq]
  exact (List.getElem?_eq_some_iff.1 hc.2).1

theorem Has.nodup_params (hc : L.Has c) : c.params.Nodup :=
  L.nodup c (List.mem_of_getElem? hc.2)

theorem Has.eq_of_id_eq {d : Closure} (hc : L.Has c) (hd : L.Has d) (h : c.id = d.id) : c = d := by
  have hlisted := hc.2
  rw [Listed, h] at hlisted
  exact Option.some.inj (hlisted.symm.trans hd.2)

theorem Later.refl (L : Ledger) : L.Later L := ⟨List.prefix_rfl, .refl _, rfl⟩

theorem Later.trans {L₁ : Ledger} (h : L.Later L₁) (h' : L₁.Later L') : L.Later L' :=
  ⟨h.closures.trans h'.closures, h.store.trans h'.store, h'.host.trans h.host⟩

def goOn (L : Ledger) (w : World) (hstore : w.store.WellFormed (Listed L.closures))
    (hcount : w.store.closures = L.world.store.closures) (hhost : w.host = L.world.host) :
    Ledger where
  closures := L.closures
  world := w
  wellFormed := ⟨hstore, hhost ▸ L.wellFormed.host⟩
  length_eq := L.length_eq.trans hcount.symm
  nodup := L.nodup

theorem later_goOn {w : World} {hstore : w.store.WellFormed (Listed L.closures)}
    {hcount : w.store.closures = L.world.store.closures} {hhost : w.host = L.world.host}
    (hle : L.world.store.Extends w.store) : L.Later (L.goOn w hstore hcount hhost) :=
  ⟨List.prefix_rfl, hle, hhost⟩

def add (L : Ledger) (params : List String) (body : Value) (frame : FrameId) (help : Option Value)
    (hparams : params.Nodup) : Ledger where
  closures := L.closures ++ [⟨L.world.store.closures, params, body, frame, help⟩]
  world := L.world.newClosure
  wellFormed := ⟨(L.wellFormed.store.mono fun _ hc =>
    Listed.mono hc (List.prefix_append _ _)).newClosure, L.wellFormed.host⟩
  length_eq := by
    rw [List.length_append, L.length_eq]
    rfl
  nodup c hc := by
    obtain hc | hc := List.mem_append.1 hc
    · exact L.nodup c hc
    · rw [List.mem_singleton.1 hc]
      exact hparams

theorem later_add {params : List String} {body : Value} {frame : FrameId} {help : Option Value}
    (hparams : params.Nodup) : L.Later (L.add params body frame help hparams) :=
  ⟨List.prefix_append _ _, Store.extends_newClosure, rfl⟩

def custody : Custody Ledger where
  world := world
  Later := Later
  Frame L id := id < L.world.nextFrame
  Has := Has
  Asks L r := r.Draws L.Has
  refl := .refl
  trans := .trans
  frame_mono h hid := Nat.lt_of_lt_of_le hid h.store.size_le
  has_mono := Has.mono
  captured hc := hc.1
  root hid := Nat.lt_of_le_of_lt (Store.root_le _ _) hid
  lookup _ h := Store.WellFormed.lookup? (wellFormed _).store h
  keep {L w} hstore hhost :=
    ⟨L.goOn w (hstore ▸ L.wellFormed.store) (hstore ▸ rfl) hhost, rfl,
      later_goOn (hstore ▸ .refl _)⟩
  newFrame {L parent bindings} hparent hbindings :=
    ⟨L.goOn (L.world.newFrame bindings parent) (L.wellFormed.store.newFrame hparent hbindings) rfl
      rfl, rfl, later_goOn (Store.extends_newFrame _ _),
      Nat.lt_of_lt_of_eq (Nat.lt_succ_self _) (L.world.nextFrame_newFrame bindings parent).symm⟩
  newClosure {L params body frame help} hparams hframe hbody hhelp := by
    have hle : L.Later (L.add params body frame help hparams) := later_add hparams
    have hlisted := listed_concat L.closures (c := ⟨L.world.store.closures, params, body, frame,
      help⟩) L.length_eq.symm
    refine ⟨_, rfl, hle, Value.Within.closure_iff.2 ⟨⟨hframe, hlisted⟩, ?_, ?_⟩⟩
    · exact hbody.mono fun _ => Has.mono hle
    · exact fun v hv => (hhelp v hv).mono fun _ => Has.mono hle
  write {L id v} name _ hv :=
    ⟨L.goOn { L.world with store := L.world.store.bind id name v } (L.wellFormed.store.bind hv) rfl
      rfl, rfl, later_goOn Store.extends_bind⟩
  host {L slot operation args} hslot hargs := L.wellFormed.host slot operation hslot _ args hargs
  finish h := by
    cases h with
    | finish hresult => exact outcomeWithin_iff.1 hresult
  call h := by
    cases h with
    | call hf hargs hresume =>
      exact ⟨hf, hargs, fun L' result hle hresult =>
        hresume _ (fun _ => Has.mono hle) result (outcomeWithin_iff.2 hresult)⟩

def upkeep : Upkeep Ledger := custody.upkeep

end Ledger

end Lisplet
