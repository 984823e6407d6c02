import Mathlib.Data.List.Nodup
import SheetFormula.Proofs.Formula.Output
import SheetFormula.Proofs.Store.Tables
import SheetFormula.Store

/-!
# Names in output

No name occurs twice in what is written of a unit: the scope takes each module binding once, exports
are collected as a scope is, and unpacked output keeps the name of its entry formula free. So it
does not matter whether the first entry of a name is looked up or the last one, and tables take
every manifest.
-/

namespace SheetFormula

namespace Entries

variable {es : Entries} {name : Text}

/-! ### The first entry of a name and the last one -/

lemma mem_names_of_get {t : Text} (h : es.get? name = some t) : name ∈ es.names := by
  obtain ⟨e, hfound, -⟩ := Option.map_eq_some_iff.mp h
  have hname : e.name = name := by simpa using List.find?_some hfound
  exact List.mem_map.mpr ⟨e, List.mem_of_find?_eq_some hfound, hname⟩

/-- With distinct names the entries of a name are what is found under it. -/
lemma get_eq_some_iff (h : es.names.Nodup) {t : Text} :
    es.get? name = some t ↔ ⟨name, t⟩ ∈ es := by
  induction es with
  | nil => simp [get?]
  | cons e rest ih =>
    obtain ⟨hnew, hrest⟩ := List.nodup_cons.mp h
    by_cases hname : e.name = name
    · subst hname
      have hfirst : get? (e :: rest) e.name = some e.formula := by simp [get?]
      rw [hfirst, List.mem_cons]
      constructor
      · intro ht
        obtain rfl := Option.some.inj ht
        exact .inl rfl
      · rintro (heq | hmem)
        · rw [← heq]
        · exact absurd (List.mem_map.mpr ⟨_, hmem, rfl⟩) hnew
    · have hlater : get? (e :: rest) name = get? rest name := by simp [get?, hname]
      rw [hlater, ih hrest, List.mem_cons]
      constructor
      · exact .inr
      · rintro (rfl | hmem)
        · exact absurd rfl hname
        · exact hmem

/-- With distinct names it does not matter from which end entries are looked up. -/
lemma get_reverse (h : es.names.Nodup) : get? es.reverse name = es.get? name := by
  have hreverse : (names es.reverse).Nodup := by
    rw [names, List.map_reverse]
    exact List.nodup_reverse.mpr h
  ext t
  rw [get_eq_some_iff h, get_eq_some_iff hreverse, List.mem_reverse]

lemma lookup_filterMap {ns : List Text} (f : Text → Option Text) :
    (ns.filterMap fun n => (f n).map (n, ·)).lookup name = if name ∈ ns then f name else none := by
  induction ns with
  | nil => rfl
  | cons n rest ih =>
    rw [List.filterMap_cons]
    by_cases hname : name = n
    · subst hname
      cases hf : f name with
      | none => simpa [hf] using ih
      | some t => simp
    · have hother : (name == n) = false := beq_eq_false_iff_ne.mpr hname
      cases hf : f n with
      | none => simpa [hname] using ih
      | some t => simpa [List.lookup_cons, hother, hname] using ih

/-- The table has the last entry of each name. -/
lemma lookup_table (es : Entries) (name : Text) :
    es.table.lookup name = get? es.reverse name := by
  have hmem : name ∈ Text.sort es.names.eraseDups ↔ name ∈ es.names := by
    rw [Text.sort, List.mem_mergeSort, List.mem_eraseDups]
  rw [table, lookup_filterMap]
  split_ifs with hname
  · rfl
  · rw [hmem] at hname
    cases hget : get? es.reverse name with
    | none => rfl
    | some t =>
      have hsome := mem_names_of_get hget
      rw [names, List.map_reverse, List.mem_reverse] at hsome
      exact absurd hsome hname

/-- With distinct names the table has what is found under each name. -/
lemma lookup_table_of_nodup (h : es.names.Nodup) : es.table.lookup name = es.get? name := by
  rw [lookup_table, get_reverse h]

lemma names_written (bs : List Binding) : names (bs.map Binding.written) = bound bs := by
  simp [names, bound, Binding.written]

end Entries

/-! ### Names of a unit -/

/-- Neither the module bindings nor the exports of a compiled module repeat a name. -/
lemma Formula.nodup_compile {mode : MemberMode} {p : Program} {u : CompiledUnit}
    (h : compile mode p = .ok u) : (bound u.bindings).Nodup ∧ (bound u.exports).Nodup := by
  obtain ⟨-, _, -, hunit⟩ := compile_eq_ok_iff.mp h
  obtain ⟨bs, -, hdistinct, hexports⟩ := hunit.exports
  have hnames : bound u.exports = bound bs := by
    rw [hexports]
    simp [bound, under]
  rw [hnames]
  exact ⟨hunit.distinct, hdistinct⟩

namespace Output

variable {shape : OutputMode} {members : MemberMode} {p : Program} {o : Output}

lemma nodup_manifest (h : ofProgram shape members (some p) = .ok o) : o.manifest.names.Nodup := by
  obtain ⟨hunit, hmanifest, -⟩ := compile_of_ofProgram h
  rw [hmanifest, Entries.names_written]
  exact (Formula.nodup_compile hunit).2

/-- The names of unpacked output are those of the module bindings and that of the entry formula. -/
lemma names_unpacked (h : ofProgram .unpacked members (some p) = .ok o) :
    o.unpacked.names = bound o.unit.bindings ++ [mainName] ∧ mainName ∉ bound o.unit.bindings := by
  obtain ⟨hunit, -, hfree⟩ := compile_of_ofProgram h
  have hentries : o.unpacked =
      o.unit.bindings.map Binding.written ++ [(⟨mainName, o.unit.main⟩ : Binding).written] := by
    rw [← Except.ok.inj ((ofProgram_unpacked hunit (hfree rfl)).symm.trans h)]
  refine ⟨?_, hfree rfl⟩
  rw [hentries, Entries.names, List.map_append]
  exact congrArg (· ++ [mainName]) (Entries.names_written _)

lemma nodup_unpacked (h : ofProgram shape members (some p) = .ok o) : o.unpacked.names.Nodup := by
  obtain ⟨hunit, -, -⟩ := compile_of_ofProgram h
  cases shape with
  | packed =>
    rw [← Except.ok.inj ((ofProgram_packed hunit).symm.trans h)]
    exact List.nodup_nil
  | unpacked =>
    obtain ⟨hnames, hfree⟩ := names_unpacked h
    rw [hnames]
    exact (Formula.nodup_compile hunit).1.append (List.nodup_singleton _) (by simpa using hfree)

end Output

/-- A store of tables takes a manifest without repeated names, whatever it has of the unit. -/
lemma TableStore.save_of_nodup {s : TableStore} {manifest : Entries} (hopen : s.isOpen = true)
    (h : manifest.names.Nodup) (t : FileTree) (now : Instant) (unit : Text) :
    (s.save t false now unit manifest).2 = none := by
  have hclear : s.obstacle false = none := by simp [obstacle, hopen]
  obtain ⟨next, hsave⟩ := Database.exists_save h (s.tables t) unit now.text
  simp only [save, hclear, hsave]

/-- Output never has a name twice: neither the module bindings nor the manifest nor the unpacked
entries, of which the last one and no other is the entry formula. So under each name the first entry
is the last one too, and an open store of tables takes the manifest, for any unit at any time. -/
theorem output_names_distinct {shape : OutputMode} {members : MemberMode} {p : Program} {o : Output}
    (h : Output.ofProgram shape members (some p) = .ok o) :
    (o.unit.bindings.map (·.name)).Nodup ∧ o.manifest.names.Nodup ∧
    (shape = .unpacked → o.unpacked.names.Nodup ∧ o.unpacked.names.count ("_main_" : Text) = 1 ∧
      o.unpacked.names.getLast? = some "_main_") ∧
    (∀ name, o.unpacked.get? name = o.unpacked.table.lookup name ∧
      o.manifest.get? name = o.manifest.table.lookup name) ∧
    ∀ (s : TableStore) (t : FileTree) (now : Instant) (unit : Text), s.isOpen = true →
      (s.save t false now unit o.manifest).2 = none := by
  obtain ⟨hunit, -, -⟩ := Output.compile_of_ofProgram h
  have hmanifest := Output.nodup_manifest h
  have hunpacked := Output.nodup_unpacked h
  refine ⟨(Formula.nodup_compile hunit).1, hmanifest, ?_, ?_, ?_⟩
  · rintro rfl
    obtain ⟨hnames, -⟩ := Output.names_unpacked h
    refine ⟨hunpacked, ?_, ?_⟩
    · apply List.count_eq_one_of_mem hunpacked
      rw [hnames]
      exact List.mem_append_right _ (List.mem_singleton_self _)
    · rw [hnames, List.getLast?_concat]
      rfl
  · intro name
    exact ⟨(Entries.lookup_table_of_nodup hunpacked).symm,
      (Entries.lookup_table_of_nodup hmanifest).symm⟩
  · intro s t now unit hopen
    exact TableStore.save_of_nodup hopen hmanifest t now unit

/-- A module that exports the name of a binding and, under the reserved name, something else than
its entry formula. -/
theorem reserved_export_distinct :
    let program : Program := ⟨{},
      [.declaration {} "const" [⟨{}, .identifier {} "k", some (.literal {} "2")⟩],
       .exportNamed {} (some (.declaration {} "const"
         [⟨{}, .identifier {} "_main_", some (.literal {} "3")⟩,
          ⟨{}, .identifier {} "k", some (.identifier {} "k")⟩])),
       .exportDefault {} (.identifier {} "k")]⟩
    ∃ o, Output.ofProgram .unpacked .nested (some program) = .ok o ∧
      o.unpacked.names = ["k", "_main_"] ∧ o.manifest.names = ["_main_", "k"] ∧
      o.unpacked.names.count ("_main_" : Text) = 1 ∧
      o.manifest.table.lookup ("_main_" : Text) = some "=LET(k, 2, 3)" ∧
      (TableStore.save { path := ":memory:" } {} false ⟨0⟩ "a.json" o.manifest).2 = none := by
  intro program
  obtain ⟨o, ho, hunpacked, hmanifest⟩ :
      ∃ o, Output.ofProgram .unpacked .nested (some program) = .ok o ∧
        o.unpacked = [⟨"k", "=2"⟩, ⟨"_main_", "=k"⟩] ∧
        o.manifest = [⟨"_main_", "=LET(k, 2, 3)"⟩, ⟨"k", "=LET(k, 2, k)"⟩] := ⟨_, rfl, rfl, rfl⟩
  obtain ⟨-, -, hentry, hlookup, hsave⟩ := output_names_distinct ho
  refine ⟨o, ho, by rw [hunpacked]; rfl, by rw [hmanifest]; rfl, (hentry rfl).2.1, ?_, ?_⟩
  · rw [← (hlookup "_main_").2, hmanifest]
    rfl
  · exact hsave _ _ _ _ rfl

end SheetFormula
