import SheetFormula.Proofs.Formula.Unit

/-!
# Written units

Packed and unpacked output are two ways to write one unit: what is written unpacked can be packed
again, and gives the packed formula. A named export is written as the default export of its module
would be, were its value exported by default.
-/

namespace SheetFormula

/-! ### Packing what is written -/

/-- An entry without the equals sign of its formula. -/
def Binding.unwritten? (b : Binding) : Option Binding :=
  (Text.dropStart? "=" b.formula).map fun t => ⟨b.name, t⟩

/-- The last of some entries as one formula, with the entries before it as bindings around it. -/
def Entries.packed? (es : Entries) : Option Text := do
  let last ← es.getLast?
  let main ← last.unwritten?
  let bindings ← es.dropLast.mapM Binding.unwritten?
  return "=" ++ Formula.letIn bindings main.formula

lemma Binding.unwritten_written (b : Binding) : b.written.unwritten? = some b := rfl

lemma mapM_unwritten (bs : List Binding) :
    (bs.map Binding.written).mapM Binding.unwritten? = some bs := by
  induction bs with
  | nil => rfl
  | cons b rest ih => simp [Binding.unwritten_written, ih]

/-- Written bindings and a written entry are packed to what they were before. -/
lemma Entries.packed_written (bs : List Binding) (b : Binding) :
    Entries.packed? (bs.map Binding.written ++ [b.written]) =
      some ("=" ++ Formula.letIn bs b.formula) := by
  rw [Entries.packed?, List.getLast?_concat, List.dropLast_concat, mapM_unwritten]
  rfl

/-- A name that is not among those of some entries is found right behind them. -/
lemma Entries.get_append_of_not_mem {es : Entries} {name t : Text} (h : name ∉ es.names) :
    Entries.get? (es ++ [⟨name, t⟩]) name = some t := by
  have hnone : es.find? (·.name = name) = none := by
    rw [List.find?_eq_none]
    intro e he hname
    exact h (List.mem_map.mpr ⟨e, he, of_decide_eq_true hname⟩)
  simp [Entries.get?, hnone]

namespace Output

variable {members : MemberMode} {p : Program} {u : CompiledUnit}

lemma ofProgram_packed (h : Formula.compile members p = .ok u) :
    ofProgram .packed members (some p) = .ok
      { mode := .packed, packed := "=" ++ Formula.letIn u.bindings u.main
        manifest := u.exports.map Binding.written, unit := u } := by
  rw [ofProgram, h]
  rfl

lemma ofProgram_unpacked (h : Formula.compile members p = .ok u)
    (hfree : mainName ∉ bound u.bindings) :
    ofProgram .unpacked members (some p) = .ok
      { mode := .unpacked
        unpacked := u.bindings.map Binding.written ++ [(⟨mainName, u.main⟩ : Binding).written]
        manifest := u.exports.map Binding.written, unit := u } := by
  have hany : ¬ u.bindings.any (·.name = mainName) = true := by simpa [bound] using hfree
  rw [ofProgram, h]
  exact if_neg hany

lemma ofProgram_reserved (h : Formula.compile members p = .ok u)
    (htaken : mainName ∈ bound u.bindings) :
    ofProgram .unpacked members (some p) = .error ((Fault.reserved mainName).reportAt p.pos) := by
  have hany : u.bindings.any (·.name = mainName) = true := by simpa [bound] using htaken
  rw [ofProgram, h]
  exact if_pos hany

/-- The entry formula of unpacked output is behind the module bindings. -/
lemma main_of_unpacked {o : Output} {bs : List Binding} {t : Text} (hmode : o.mode = .unpacked)
    (hentries : o.unpacked = bs.map Binding.written ++ [⟨mainName, t⟩])
    (hfree : mainName ∉ bound bs) : o.main = t := by
  have hnames : mainName ∉ Entries.names (bs.map Binding.written) := by
    simpa [Entries.names, bound, Binding.written] using hfree
  have hget := Entries.get_append_of_not_mem hnames (t := t)
  rw [main, hmode, hentries]
  simp [hget]

/-- The unit of an output is that of its module, and its manifest is the exports of the unit. -/
lemma compile_of_ofProgram {shape : OutputMode} {o : Output}
    (h : ofProgram shape members (some p) = .ok o) :
    Formula.compile members p = .ok o.unit ∧ o.manifest = o.unit.exports.map Binding.written ∧
      (shape = .unpacked → mainName ∉ bound o.unit.bindings) := by
  obtain ⟨u, hu, ho⟩ := Result.bind_eq_ok.mp h
  have hfree : shape = .unpacked → mainName ∉ bound u.bindings := ofUnit_isOk_iff.mp ⟨o, ho⟩
  cases shape with
  | packed =>
    obtain rfl := Except.ok.inj ((ofProgram_packed hu).symm.trans h)
    exact ⟨hu, rfl, hfree⟩
  | unpacked =>
    obtain rfl := Except.ok.inj ((ofProgram_unpacked hu (hfree rfl)).symm.trans h)
    exact ⟨hu, rfl, hfree⟩

end Output

/-- Packed output is there whenever the module compiles, and unpacked output unless a module binding
has the reserved name. Both write the same unit and the same manifest. Unpacked output is the module
bindings in the order of their declaration and the entry formula behind them, and packed again it
is the packed output. -/
theorem output_shapes_agree (members : MemberMode) (p : Program) :
    ((∃ o, Output.ofProgram .packed members (some p) = .ok o) ↔
      ∃ u, Formula.compile members p = .ok u) ∧
    ((∃ o, Output.ofProgram .unpacked members (some p) = .ok o) ↔
      ∃ u, Formula.compile members p = .ok u ∧ ∀ b ∈ u.bindings, b.name ≠ "_main_") ∧
    (∀ u, Formula.compile members p = .ok u → (∃ b ∈ u.bindings, b.name = "_main_") →
      ∃ e, Output.ofProgram .unpacked members (some p) = .error e ∧ e.code = "BIND-0004" ∧
        e.line = p.pos.line ∧ e.column = p.pos.column) ∧
    ∀ o o', Output.ofProgram .packed members (some p) = .ok o →
      Output.ofProgram .unpacked members (some p) = .ok o' →
      Formula.compile members p = .ok o.unit ∧ o'.unit = o.unit ∧ o'.manifest = o.manifest ∧
      List.Forall₂ (Formula.Binds members) (declaratorsIn p.body) o.unit.bindings ∧
      o'.unpacked = o.unit.bindings.map (fun b => ⟨b.name, "=" ++ b.formula⟩) ++
        [⟨"_main_", "=" ++ o.unit.main⟩] ∧
      o'.unpacked.getLast?.map (·.formula) = some o'.main ∧
      Entries.packed? o'.unpacked = some o.packed := by
  have hfree : ∀ u : CompiledUnit,
      mainName ∉ bound u.bindings ↔ ∀ b ∈ u.bindings, b.name ≠ "_main_" := by
    intro u
    simp [bound, mainName]
  refine ⟨⟨?_, ?_⟩, ⟨?_, ?_⟩, ?_, ?_⟩
  · rintro ⟨o, ho⟩
    exact ⟨o.unit, (Output.compile_of_ofProgram ho).1⟩
  · rintro ⟨u, hu⟩
    exact ⟨_, Output.ofProgram_packed hu⟩
  · rintro ⟨o, ho⟩
    obtain ⟨hu, -, hnames⟩ := Output.compile_of_ofProgram ho
    exact ⟨o.unit, hu, (hfree o.unit).mp (hnames rfl)⟩
  · rintro ⟨u, hu, hnames⟩
    exact ⟨_, Output.ofProgram_unpacked hu ((hfree u).mpr hnames)⟩
  · rintro u hu ⟨b, hb, hname⟩
    have htaken : mainName ∈ bound u.bindings := List.mem_map.mpr ⟨b, hb, hname⟩
    exact ⟨_, Output.ofProgram_reserved hu htaken, rfl, rfl, rfl⟩
  · intro o o' ho ho'
    obtain ⟨u, hu, hnames⟩ : ∃ u, Formula.compile members p = .ok u ∧
        mainName ∉ bound u.bindings := by
      obtain ⟨hu, -, hnames⟩ := Output.compile_of_ofProgram ho'
      exact ⟨o'.unit, hu, hnames rfl⟩
    obtain rfl := Except.ok.inj ((Output.ofProgram_packed hu).symm.trans ho)
    obtain rfl := Except.ok.inj ((Output.ofProgram_unpacked hu hnames).symm.trans ho')
    obtain ⟨-, _, -, hunit⟩ := Formula.compile_eq_ok_iff.mp hu
    refine ⟨hu, rfl, rfl, hunit.bindings, rfl, ?_, Entries.packed_written _ _⟩
    rw [List.getLast?_concat, Output.main_of_unpacked rfl rfl hnames]
    rfl

/-- A module that binds one name is written in both shapes; with the reserved name it is written
packed only. -/
theorem single_binding_shapes :
    let program (name : Text) : Program := ⟨⟨3, 7, 0, 0⟩,
      [.declaration {} "const" [⟨{}, .identifier {} name, some (.literal {} "1")⟩],
       .exportDefault {} (.identifier {} name)]⟩
    (∃ o o', Output.ofProgram .packed .nested (some (program "a")) = .ok o ∧
      Output.ofProgram .unpacked .nested (some (program "a")) = .ok o' ∧
      o.packed = "=LET(a, 1, a)" ∧ o'.unpacked = [⟨"a", "=1"⟩, ⟨"_main_", "=a"⟩] ∧
      Entries.packed? o'.unpacked = some o.packed) ∧
    ∃ e, Output.ofProgram .unpacked .nested (some (program "_main_")) = .error e ∧
      e.code = "BIND-0004" ∧ e.line = 3 ∧ e.column = 7 := by
  intro program
  obtain ⟨hpacked, hunpacked, -, hboth⟩ := output_shapes_agree .nested (program "a")
  have hcompile : Formula.compile .nested (program "a") = .ok ⟨[⟨"a", "1"⟩], "a", []⟩ := by rfl
  obtain ⟨o, ho⟩ := hpacked.mpr ⟨_, hcompile⟩
  obtain ⟨o', ho'⟩ := hunpacked.mpr ⟨_, hcompile, by decide⟩
  obtain ⟨hunit, -, -, -, hentries, -, hagain⟩ := hboth o o' ho ho'
  have hu : o.unit = ⟨[⟨"a", "1"⟩], "a", []⟩ := Except.ok.inj (hunit.symm.trans hcompile)
  have hwritten : o'.unpacked = [⟨"a", "=1"⟩, ⟨"_main_", "=a"⟩] := by
    rw [hentries, hu]
    rfl
  have htext : o.packed = "=LET(a, 1, a)" := by
    rw [hwritten] at hagain
    exact (Option.some.inj hagain).symm
  have hreserved : Formula.compile .nested (program "_main_") =
      .ok ⟨[⟨"_main_", "1"⟩], "_main_", []⟩ := by rfl
  exact ⟨⟨o, o', ho, ho', htext, hwritten, hagain⟩,
    (output_shapes_agree .nested (program "_main_")).2.2.1 _ hreserved (by simp)⟩

/-! ### Named exports as default exports -/

/-- The node that exports `value` by default in place of what it exported. -/
def Node.withDefault (n value : Node) : Node :=
  match n with
  | .exportDefault pos _ => .exportDefault pos value
  | _ => n

/-- The program that exports `value` by default in place of what it exported. -/
def Program.withDefault (p : Program) (value : Node) : Program :=
  { p with body := p.body.map (·.withDefault value) }

namespace Program

variable {p : Program} (value : Node)

lemma flatMap_withDefault {α : Type} {f : Node → List α}
    (hf : ∀ n, f (Node.withDefault n value) = f n) :
    (p.withDefault value).body.flatMap f = p.body.flatMap f := by
  rw [withDefault, List.flatMap_map]
  simp only [hf]

lemma declaratorsIn_withDefault :
    declaratorsIn (p.withDefault value).body = declaratorsIn p.body := by
  refine flatMap_withDefault value fun n => ?_
  cases n <;> rfl

lemma exportedIn_withDefault : exportedIn (p.withDefault value).body = exportedIn p.body := by
  refine flatMap_withDefault value fun n => ?_
  cases n <;> rfl

lemma defaultsIn_withDefault :
    defaultsIn (p.withDefault value).body = (defaultsIn p.body).map fun _ => value := by
  rw [withDefault, defaultsIn, defaultsIn, List.filterMap_map, List.map_filterMap]
  congr 1
  funext n
  cases n <;> rfl

/-- What a module exports by default has no part in its shape. -/
lemma moduleShape_withDefault (h : ModuleShape p.body) :
    ModuleShape (p.withDefault value).body := by
  have hkept : ∀ n, Node.withDefault n value = n ∨ (Node.withDefault n value).isExportDefault := by
    intro n
    cases n with
    | exportDefault pos m => exact .inr rfl
    | _ => exact .inl rfl
  refine ⟨?_, ?_, ?_⟩
  · rw [withDefault, List.forall_mem_map]
    intro n hn
    obtain hsame | hdefault := hkept n
    · rw [hsame]
      exact h.kinds n hn
    · exact .inr (.inl hdefault)
  · rw [← Formula.length_defaultsIn, defaultsIn_withDefault, List.length_map,
      Formula.length_defaultsIn]
    exact h.singleDefault
  · intro pos inner hmem
    obtain ⟨n, hn, heq⟩ := List.mem_map.mp hmem
    obtain hsame | hdefault := hkept n
    · rw [hsame] at heq
      exact h.exportsDeclare pos inner (heq ▸ hn)
    · rw [heq] at hdefault
      cases hdefault

end Program

/-- With another default export a module keeps its bindings and its exports. -/
lemma Formula.compile_withDefault {mode : MemberMode} {p : Program} {u : CompiledUnit}
    {value : Node} {t : Text} (h : compile mode p = .ok u) (ht : ofNode mode (some value) = .ok t) :
    compile mode (p.withDefault value) = .ok { u with main := t } := by
  obtain ⟨hshape, main, hdefault, hunit⟩ := compile_eq_ok_iff.mp h
  refine compile_eq_ok_iff.mpr ⟨Program.moduleShape_withDefault value hshape, value, ?_, ?_⟩
  · rw [Program.defaultsIn_withDefault, hdefault]
    rfl
  · rw [Program.declaratorsIn_withDefault, Program.exportedIn_withDefault]
    exact ⟨hunit.bindings, hunit.distinct, ht, hunit.exports⟩

/-- A named export is written as a default export of its value would be: the manifest goes through
the exported names in order, and each of its formulas is the packed output of the program that
exports the value of the name by default. That program has the same manifest and the same module
bindings. -/
theorem named_export_as_default {shape : OutputMode} {members : MemberMode} {p : Program}
    {o : Output} (h : Output.ofProgram shape members (some p) = .ok o) :
    List.Forall₂ (fun d b => d.id.name? = some b.name ∧ ∃ value, d.init = some value ∧
      ∃ o', Output.ofProgram .packed members (some (p.withDefault value)) = .ok o' ∧
        b.formula = o'.packed ∧ o'.manifest = o.manifest ∧ o'.unit.bindings = o.unit.bindings)
      (exportedIn p.body) o.manifest := by
  obtain ⟨hu, hmanifest, -⟩ := Output.compile_of_ofProgram h
  obtain ⟨-, _, -, hunit⟩ := Formula.compile_eq_ok_iff.mp hu
  obtain ⟨bs, hbs, -, hexports⟩ := hunit.exports
  have hwritten : o.manifest = bs.map fun b => (Formula.under o.unit.bindings b).written := by
    rw [hmanifest, hexports, List.map_map]
    rfl
  rw [hwritten, List.forall₂_map_right_iff, ← hwritten]
  refine hbs.imp ?_
  rintro d b ⟨hname, value, hvalue, ht⟩
  have hdefault := Formula.compile_withDefault hu ht
  exact ⟨hname, value, hvalue, _, Output.ofProgram_packed hdefault, rfl, hmanifest.symm, rfl⟩

/-- One of two exports that share a statement, in a module that binds a name. -/
theorem shared_statement_export :
    let value : Node := .binary {} (.identifier {} "k") "+" (.literal {} "1")
    let program : Program := ⟨{},
      [.exportNamed {} (some (.declaration {} "const"
        [⟨{}, .identifier {} "f", some (.literal {} "3")⟩, ⟨{}, .identifier {} "g", some value⟩])),
       .exportDefault {} (.identifier {} "k"),
       .declaration {} "const" [⟨{}, .identifier {} "k", some (.literal {} "2")⟩]]⟩
    ∃ o o', Output.ofProgram .unpacked .nested (some program) = .ok o ∧
      Output.ofProgram .packed .nested (some (program.withDefault value)) = .ok o' ∧
      o.manifest = [⟨"f", "=LET(k, 2, 3)"⟩, ⟨"g", o'.packed⟩] ∧
      o'.packed = "=LET(k, 2, k + 1)" ∧ o'.manifest = o.manifest := by
  intro value program
  obtain ⟨o, ho, hmanifest⟩ : ∃ o, Output.ofProgram .unpacked .nested (some program) = .ok o ∧
      o.manifest = [⟨"f", "=LET(k, 2, 3)"⟩, ⟨"g", "=LET(k, 2, k + 1)"⟩] := ⟨_, rfl, rfl⟩
  have h := named_export_as_default ho
  rw [hmanifest] at h
  obtain ⟨-, _, hvalue, o', ho', hpacked, hsame, -⟩ := h.get (i := 1) (by decide) (by decide)
  obtain rfl : value = _ := Option.some.inj hvalue
  exact ⟨o, o', ho, ho', hpacked ▸ hmanifest, hpacked.symm, hsame.trans hmanifest.symm⟩

end SheetFormula
