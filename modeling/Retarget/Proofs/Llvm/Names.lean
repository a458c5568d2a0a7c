import Retarget.Proofs.Llvm.Generate

/-!
# Names in generated functions

Values and labels are numbered, and the places of variables carry their ids, but a place of a parameter has only its
name, in which most characters are replaced.

* `Name.text_inj`: names of different kinds are written differently.
* `emit_named`: what makes the names of an emitted program distinct, and its functions return what they should.
-/

namespace Retarget.Llvm

open List Surrounded Retarget.Except Line Draft NumericPlan Address

variable {id : NodeId} {debugInfo isInit : Bool} {f : Function} {m : Module} {target : Target}

/-! ## Names -/

/-- A name that a function defines. -/
inductive Name where
  | arg (index : Nat)
  | value (number : Nat)
  | label (label : Label)
  | place (p : Address)

def Name.text : Name → String
  | arg index => (Operand.arg index).text
  | value number => valueText number
  | label l => "%" ++ l.text
  | place p => p.text

def Line.place? : Line → Option Address
  | instr (.allocate place) => some place
  | _ => none

def Line.name? : Line → Option Name
  | label l => some (.label l)
  | instr (.define number _) => some (.value number)
  | instr (.allocate place) => some (.place place)
  | _ => none

def Function.names (f : Function) : List Name := (range f.params).map .arg ++ f.lines.filterMap name?

/-- The name is that of a place in the function, and nothing in it looks like a separator. -/
def Address.Simple : Address → Prop
  | param name | .variable name _ => '.' ∉ name.toList
  | global _ => False

namespace Name

def Simple : Name → Prop
  | place p => p.Simple
  | _ => True

def words : Name → List (List Char)
  | arg index => ["%arg".toList ++ Nat.toDigits 10 index]
  | value number => ['%' :: Nat.toDigits 10 number]
  | label l => l.words.modifyHead ('%' :: ·)
  | place (.param name) => ['%' :: name.toList, "addr".toList]
  | place (.variable name id) => ['%' :: name.toList, Nat.toDigits 10 id, "addr".toList]
  | place (.global _) => []

variable {n : Name}

attribute [local simp] words Label.words

theorem dot_notMem_words (h : n.Simple) : ∀ word ∈ n.words, '.' ∉ word := by
  cases n with
  | arg index | value number => simp [notMem_toDigits (c := '.') rfl]
  | label l =>
    have hl := l.dot_notMem_words
    cases l <;> simp_all
  | place p =>
    cases p with
    | param name | «variable» name id => simpa [notMem_toDigits (c := '.') rfl] using show '.' ∉ name.toList from h
    | global name => cases h

theorem splitOn_text (h : n.Simple) : n.text.toList.splitOn '.' = n.words := by
  have htext : n.text.toList = ['.'].intercalate n.words ∧ n.words ≠ [] := by
    cases n with
    | arg index | value number => simp [text, Operand.text, valueText, intercalate]
    | label l => cases l <;> simp [text, Label.text, intercalate, intersperse]
    | place p =>
      cases p with
      | param name | «variable» name id => simp [text, Address.text, intercalate, intersperse]
      | global name => cases h
  rw [htext.1, splitOn_intercalate _ (dot_notMem_words h) htext.2]

theorem toDigits_ne {n : Nat} {word : List Char} (h : word.all Char.isDigit = false) : Nat.toDigits 10 n ≠ word := by
  rintro rfl
  rw [all_isDigit_toDigits] at h
  cases h

theorem text_inj {n' : Name} (h : n.Simple) (h' : n'.Simple) (heq : n.text = n'.text) : n = n' := by
  have hwords : n.words = n'.words := by rw [← splitOn_text h, heq, splitOn_text h']
  have haddr (k : Nat) : Nat.toDigits 10 k ≠ ['a', 'd', 'd', 'r'] := toDigits_ne (by decide)
  have harg (k k' : Nat) : Nat.toDigits 10 k ≠ 'a' :: 'r' :: 'g' :: Nat.toDigits 10 k' := toDigits_ne (by simp)
  have hentry (k : Nat) : Nat.toDigits 10 k ≠ ['e', 'n', 't', 'r', 'y'] := toDigits_ne (by decide)
  cases n with
  | arg i =>
    cases n' with
    | arg i' => simpa [Json.toDigits_injective.eq_iff] using hwords
    | value k => simp [(harg _ _).symm] at hwords
    | label l => cases l <;> simp at hwords
    | place p => cases p <;> simp at hwords
  | value k =>
    cases n' with
    | arg i => simp [harg] at hwords
    | value k' => simpa [Json.toDigits_injective.eq_iff] using hwords
    | label l => cases l <;> simp [hentry] at hwords
    | place p => cases p <;> simp at hwords
  | label l =>
    cases n' with
    | arg i => cases l <;> simp at hwords
    | value k => cases l <;> simp [(hentry _).symm] at hwords
    | label l' => exact congrArg label (Label.text_injective (by simpa [text] using heq))
    | place p => cases l <;> cases p <;> simp [haddr] at hwords
  | place p =>
    cases n' with
    | arg i => cases p <;> simp at hwords
    | value k => cases p <;> simp at hwords
    | label l => cases l <;> cases p <;> simp [(haddr _).symm] at hwords
    | place p' =>
      cases p with
      | global name => cases h
      | param name | «variable» name id =>
        cases p' <;> simp_all [Json.toDigits_injective.eq_iff, String.toList_inj]

end Name

theorem names_perm (lines : List Line) : (lines.filterMap name?).Perm
    ((numbersOf lines).map .value ++ ((labelsOf lines).map .label ++ (lines.filterMap place?).map .place)) := by
  induction lines with
  | nil => rfl
  | cons line lines ih =>
    cases line with
    | label l => exact (ih.cons _).trans perm_middle.symm
    | instr i =>
      cases i with
      | allocate p =>
        refine (ih.cons _).trans ?_
        rw [← append_assoc]
        exact perm_middle.symm.trans (.of_eq (append_assoc ..))
      | store o p => exact ih
      | define n c => exact ih.cons _
    | terminator t => exact ih
    | comment n => exact ih

/-! ## Functions -/

theorem lines_prologue {scope : NumericScope} :
    ∃ slots : List (Address × Operand), slots.map Prod.fst = Gen.addresses scope ∧
    (prologue scope).lines.toList = .label .entry ::
      slots.flatMap fun slot => [.instr (.allocate slot.1), .instr (.store slot.2 slot.1)] := by
  have hfold (slots : List (Address × Operand)) (d : Draft) (hopen : d.terminated = false) :
      (slots.foldl (fun d slot =>
        (d.instruction (.allocate slot.1)).instruction (.store slot.2 slot.1)) d).lines.toList =
        d.lines.toList ++ slots.flatMap fun slot => [.instr (.allocate slot.1), .instr (.store slot.2 slot.1)] := by
    induction slots generalizing d with
    | nil => simp
    | cons slot slots ih =>
      have hnext : ((d.instruction (.allocate slot.1)).instruction (.store slot.2 slot.1)).terminated = false := by
        simp [instruction, opened, push, hopen]
      rw [foldl_cons, ih _ hnext]
      simp [instruction, opened, push, hopen]
  refine ⟨_, map_fst_zip ?_, hfold _ _ rfl⟩
  simp [Gen.addresses]

variable {scope : NumericScope}

theorem function_places (h : function debugInfo isInit scope = .ok f) :
    f.lines.filterMap place? = Gen.addresses scope := by
  obtain ⟨d, rfl, -, -, more, hlines, hmore⟩ := function_drafted h
  obtain ⟨slots, hslots, hprologue⟩ := lines_prologue
  have hnone : more.filterMap place? = [] := by
    refine filterMap_eq_nil_iff.2 fun line hline => ?_
    have hinner := hmore line hline
    unfold place?
    split
    case h_1 => cases hinner
    case h_2 => rfl
  have hslot (slots : List (Address × Operand)) : (slots.flatMap fun slot =>
      [instr (.allocate slot.1), .instr (.store slot.2 slot.1)]).filterMap place? = slots.map Prod.fst := by
    induction slots with
    | nil => rfl
    | cons slot slots ih => exact congrArg (slot.1 :: ·) ih
  rw [hlines, filterMap_append, hnone, append_nil, hprologue, ← hslots, ← hslot]
  rfl

theorem Function.filterMap_code {α : Type} {g : Line → Option α} (hg : ∀ n, g (.comment n) = none) :
    f.code.filterMap g = f.lines.filterMap g := by
  rw [Function.code, filterMap_filter]
  refine filterMap_congr fun line _ => ?_
  cases line <;> simp [isCode, hg]

theorem bindingName_simple : '.' ∉ (Gen.bindingName m id).toList := by
  simp only [Gen.bindingName, String.toList_map, mem_map, not_exists, not_and]
  intro c _ hc
  split at hc <;> simp_all

theorem addresses_simple : ∀ p ∈ Gen.addresses scope, p.Simple := by
  intro p hp
  rcases mem_append.1 hp with hp | hp <;>
    (obtain ⟨id, -, rfl⟩ := mem_map.1 hp
     exact bindingName_simple)

theorem addresses_nodup (h : scope.function.locals.Nodup) : (Gen.addresses scope).Nodup ↔
    (scope.function.params.map (Gen.bindingName scope.module)).Nodup := by
  have hlocals : (scope.function.locals.map fun id => Address.variable (Gen.bindingName scope.module id) id).Nodup :=
    h.map fun id id' heq => (variable.inj heq).2
  have hparam : Function.Injective param := fun name name' heq => param.inj heq
  rw [Gen.addresses, nodup_append, ← nodup_map_iff hparam, map_map]
  refine ⟨fun h => h.1, fun h => ⟨h, hlocals, ?_⟩⟩
  simp

/-- Names of a function are distinct exactly if its parameters have places of their own. -/
theorem names_nodup (h : function debugInfo isInit scope = .ok f) (hlocals : scope.function.locals.Nodup) :
    (f.names.map Name.text).Nodup ↔ (scope.function.params.map (Gen.bindingName scope.module)).Nodup := by
  obtain ⟨blocks, houtline⟩ := function_outlined h
  have hplaces := function_places h
  have hlabels : (labelsOf f.lines).Nodup := by
    have htexts := houtline.labels_nodup
    rw [← Function.comp_def, ← map_map, ← labelsOf_blocks, ← houtline.code_eq, labelsOf,
      f.filterMap_code fun _ => rfl] at htexts
    exact .of_map _ htexts
  have hnumbers : (numbersOf f.lines).Nodup := by
    obtain ⟨count, hcount⟩ := houtline.numbers
    rw [numbersOf, ← f.filterMap_code fun _ => rfl, ← numbersOf, hcount]
    exact nodup_range
  have hperm := (names_perm f.lines).append_left ((range f.params).map Name.arg)
  have hsimple : ∀ n ∈ f.names, n.Simple := by
    intro n hn
    cases n with
    | place p =>
      have hp : p ∈ f.lines.filterMap place? := by simpa using hperm.mem_iff.1 hn
      exact addresses_simple p (hplaces ▸ hp)
    | arg | value | label => trivial
  have hnames : f.names.Nodup ↔ (Gen.addresses scope).Nodup := by
    have hargs : ((range f.params).map Name.arg).Nodup := nodup_range.map fun i i' h => Name.arg.inj h
    have hvalues := hnumbers.map fun (i i' : Nat) (h : Name.value i = .value i') => Name.value.inj h
    have hlabels := hlabels.map fun (l l' : Label) (h : Name.label l = .label l') => Name.label.inj h
    have hplace : Function.Injective Name.place := fun p p' h => Name.place.inj h
    rw [Function.names, hperm.nodup_iff, ← nodup_map_iff hplace, ← hplaces]
    simp only [nodup_append, hargs, hvalues, hlabels, true_and]
    refine ⟨fun h => h.1.1.1, fun h => ⟨⟨⟨h, ?_⟩, ?_⟩, ?_⟩⟩
    all_goals
      intro n hn n' hn' heq
      obtain ⟨_, -, rfl⟩ := mem_map.1 hn
      subst heq
      simp at hn'
  rw [← addresses_nodup hlocals, ← hnames]
  exact ⟨.of_map _, .map_on fun n hn n' hn' => Name.text_inj (hsimple n hn) (hsimple n' hn')⟩

theorem function_returns (h : function debugInfo isInit scope = .ok f)
    (hinit : isInit = true ↔ scope.function.name = initName) :
    ∀ t, .terminator t ∈ f.lines → (t = .retVoid → f.isInit = true) ∧ ∀ o, t = .ret o → f.isInit = false := by
  obtain ⟨d, rfl, -, -, more, hlines, hmore⟩ := function_drafted h
  obtain ⟨slots, -, hprologue⟩ := lines_prologue
  intro t ht
  rw [hlines, hprologue] at ht
  have hmem : terminator t ∈ more := by simpa using ht
  have hinner := hmore _ hmem
  refine ⟨fun hvoid => ?_, fun o hret => ?_⟩
  · subst hvoid
    exact hinit.2 (by simpa [Line.Inner] using hinner)
  · subst hret
    have hname : scope.function.name ≠ initName := by simpa [Line.Inner] using hinner
    exact Bool.eq_false_iff.2 fun htrue => hname (hinit.1 htrue)

/-! ## Programs -/

theorem symbol_injective : Function.Injective symbol := by
  intro name name' h
  have hplain (name : String) (hname : (name != "" && name.toList.all fun c =>
      c.isAlphanum || c == '_' || c == '$' || c == '.' || c == '-') = true) : '"' ∉ name.toList := by
    intro hmem
    simp only [Bool.and_eq_true, all_eq_true] at hname
    cases hname.2 _ hmem
  unfold symbol at h
  dsimp only at h
  split at h <;> split at h
  · exact h
  · next hname _ =>
    exact absurd (by simp [h]) (hplain _ hname)
  · next _ hname =>
    exact absurd (by simp [← h]) (hplain _ hname)
  · simpa [← String.toList_inj] using h

theorem nodup_eraseDups (ids : List NodeId) : ids.eraseDups.Nodup := by
  induction hn : ids.length using Nat.strongRecOn generalizing ids with
  | ind n ih =>
    cases ids with
    | nil => simp
    | cons id ids =>
      rw [eraseDups_cons, nodup_cons]
      subst hn
      refine ⟨by simp, ih _ ?_ _ rfl⟩
      have := length_filter_le (fun b => !b == id) ids
      simp; omega

/-- What a function defines has distinct names exactly if its parameters have, as they are written. Every return fits
the header of the function, unless the function is named like the initializer and is another one. -/
def Function.Named (source : Module) (debugInfo : Bool) (f : Function) : Prop :=
  ∃ scope : NumericScope, scope.module = source ∧ function debugInfo f.isInit scope = .ok f ∧
    ((f.names.map Name.text).Nodup ↔ (scope.function.params.map (Gen.bindingName source)).Nodup) ∧
    ((f.isInit = true ∨ f.name ≠ initName) →
      ∀ t, .terminator t ∈ f.lines → (t = .retVoid → f.isInit = true) ∧ ∀ o, t = .ret o → f.isInit = false)

theorem generate_named {options : CompileOptions} {program : Program} (h : generate m options = .ok program) :
    ∀ f ∈ program.functions, f.Named m options.debugInfo := by
  obtain ⟨plan, hplan, hnumeric⟩ := exists_numeric_of_generate h
  obtain ⟨hfunctions, hinit⟩ := ofModule_parts hplan
  intro f hf
  obtain ⟨numeric, isInit, hfunction, hkind⟩ := hnumeric f hf
  obtain ⟨d, rfl, -⟩ := function_drafted hfunction
  rcases hkind with ⟨hfalse, hmem⟩ | ⟨htrue, hmem⟩
  · refine ⟨⟨m, plan, numeric⟩, rfl, hfunction, names_nodup hfunction (hfunctions numeric hmem ▸ nodup_eraseDups _),
      fun hother => ?_⟩
    refine function_returns hfunction ⟨fun htrue => absurd htrue (by simp [hfalse]), fun heq => ?_⟩
    exact absurd heq (hother.resolve_left (by simp [hfalse]))
  · obtain ⟨hname, -, hlocals⟩ := hinit numeric hmem
    refine ⟨⟨m, plan, numeric⟩, rfl, hfunction, names_nodup hfunction (hlocals ▸ (nodup_eraseDups _).filter _),
      fun _ => ?_⟩
    exact function_returns hfunction ⟨fun _ => hname, fun _ => htrue⟩

/-- **Names in emitted programs.** The functions are as `Function.Named` says, and symbols are written alike only if
their names are the same. -/
theorem emit_named (m : Module) (options : CompileOptions) (text : String) (h : emit m options = .ok text) :
    ∃ source program, (options.optLevel = 0 → source = m) ∧ generate source options = .ok program ∧
      text = program.text ∧ (∀ f ∈ program.functions, f.Named source options.debugInfo) ∧
      (((program.globals ++ program.functions.map (·.name)).map symbol).Nodup ↔
        (program.globals ++ program.functions.map (·.name)).Nodup) := by
  obtain ⟨source, program, hsource, hprogram, htext⟩ := emit_eq_ok h
  exact ⟨source, program, hsource, hprogram, htext, generate_named hprogram, nodup_map_iff symbol_injective⟩

theorem countdown_named : ∃ text, emit countdown {} = .ok text ∧
    ∃ program, generate countdown {} = .ok program ∧ text = program.text ∧
      (∀ f ∈ program.functions, f.Named countdown false) ∧
      (((program.globals ++ program.functions.map (·.name)).map symbol).Nodup ↔
        (program.globals ++ program.functions.map (·.name)).Nodup) := by
  obtain ⟨text, htext⟩ := Except.exists_of_isOk (show (emit countdown {}).isOk = true by decide +kernel)
  obtain ⟨source, program, hsource, hprogram⟩ := emit_named countdown {} text htext
  obtain rfl := hsource rfl
  exact ⟨text, htext, program, hprogram⟩

end Retarget.Llvm
