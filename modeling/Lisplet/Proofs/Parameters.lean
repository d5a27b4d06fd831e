import Mathlib.Data.List.Nodup
import Std.Data.String.ToNat
import Lisplet.Evaluation.Form
import Lisplet.Proofs.Closures

/-! The parameters of procedures: those that `lambda` accepts, those that `curry` makes up, and what
can be wrong with a list of parameters. -/
namespace Lisplet.Form

/-- What is wrong with parameters, from left to right: something is not a list of symbols, or a name
stands in it twice. -/
inductive BadParams : Value → EvalFault → Prop where
  | notList {ps : Value} (h : ∀ items, ps ≠ .list items) : BadParams ps (.paramsNotList ps)
  | notSymbol {names : List String} {other : Value} (later : List Value) (hnames : names.Nodup)
    (h : ∀ name, other ≠ .symbol name) :
    BadParams (.list (names.map .symbol ++ other :: later)) (.paramNotSymbol other)
  | duplicate {names : List String} {name : String} (later : List Value) (hnames : names.Nodup)
    (h : name ∈ names) :
    BadParams (.list (names.map .symbol ++ .symbol name :: later)) (.duplicateParam name)

theorem paramNames_cases (items : List Value) (passed : List String) (hpassed : passed.Nodup) :
    (∃ names, names.Nodup ∧ passed.reverse.map .symbol ++ items = names.map .symbol ∧
      paramNames items passed = .ok names) ∨
    ∃ fault, BadParams (.list (passed.reverse.map .symbol ++ items)) fault ∧
      paramNames items passed = .error fault := by
  have hreverse : passed.reverse.Nodup := List.nodup_reverse.2 hpassed
  fun_induction paramNames items passed with
  | case1 passed => exact .inl ⟨passed.reverse, hreverse, List.append_nil _, rfl⟩
  | case2 name rest passed hmem =>
    exact .inr ⟨_, .duplicate rest hreverse (by simpa using hmem), rfl⟩
  | case3 name rest passed hmem ih =>
    have hnew : (name :: passed).Nodup := List.nodup_cons.2 ⟨by simpa using hmem, hpassed⟩
    have hsame : passed.reverse.map Value.symbol ++ .symbol name :: rest =
        (name :: passed).reverse.map .symbol ++ rest := by simp
    rw [hsame]
    exact ih hnew (List.nodup_reverse.2 hnew)
  | case4 other rest passed hother =>
    exact .inr ⟨_, .notSymbol rest hreverse hother, rfl⟩

theorem params_cases (ps : Value) :
    (∃ names, names.Nodup ∧ ps = .list (names.map .symbol) ∧ params ps = .ok names) ∨
    ∃ fault, BadParams ps fault ∧ params ps = .error (.eval fault) := by
  cases ps with
  | list items =>
    obtain ⟨names, hnames, hitems, h⟩ | ⟨fault, hfault, h⟩ :=
      paramNames_cases items [] List.nodup_nil
    · exact .inl ⟨names, hnames, congrArg _ hitems, by rw [params, h]; rfl⟩
    · exact .inr ⟨fault, hfault, by rw [params, h]; rfl⟩
  | _ => exact .inr ⟨_, .notList (by simp), rfl⟩

theorem paramNames_map_symbol {names passed : List String} (h : (passed ++ names).Nodup) :
    paramNames (names.map .symbol) passed.reverse = .ok (passed ++ names) := by
  induction names generalizing passed with
  | nil => simp [paramNames]
  | cons name names ih =>
    have hnew : passed.reverse.contains name = false := by
      have hdistinct := (List.nodup_append.1 h).2.2
      simpa using fun hmem => hdistinct name hmem name (.head _) rfl
    have hnext : name :: passed.reverse = (passed ++ [name]).reverse := by simp
    rw [List.map_cons, paramNames, hnew, if_neg Bool.false_ne_true, hnext,
      ih (by simpa using h), List.append_assoc, List.singleton_append]

theorem params_map_symbol {names : List String} (h : names.Nodup) :
    params (.list (names.map .symbol)) = .ok names := by
  have hnames : paramNames (names.map .symbol) [] = .ok names :=
    paramNames_map_symbol (List.nil_append names ▸ h)
  rw [params, hnames]
  rfl

theorem params_eq_ok_iff {ps : Value} {names : List String} :
    params ps = .ok names ↔ names.Nodup ∧ ps = .list (names.map .symbol) := by
  constructor
  · intro h
    obtain ⟨names', hnames, hps, h'⟩ | ⟨fault, -, h'⟩ := params_cases ps
    · cases h'.symm.trans h
      exact ⟨hnames, hps⟩
    · cases h'.symm.trans h
  · rintro ⟨hnames, rfl⟩
    exact params_map_symbol hnames

@[simp] theorem length_curriedParams (count : Nat) : (curriedParams count).length = count := by
  simp [curriedParams]

theorem nodup_curriedParams (count : Nat) : (curriedParams count).Nodup := by
  refine List.nodup_range.map fun i j h => ?_
  exact Nat.repr_inj.1 ((String.append_right_inj _).1 h)

end Lisplet.Form
