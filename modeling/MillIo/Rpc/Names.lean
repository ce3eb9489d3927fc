-- SUMMARY: The names that `service!` generates collide only if the names of the methods do, as long as these are words joined by underscores.
import MillIo.Rpc.Service
import Mathlib

/-!
# The generated names

`to_pascal_case` drops the underscores, and only the capitals tell where a word began. So the
names of the types are distinct for distinct methods if each word begins with a lowercase letter,
which then is a capital, and has no capitals itself. A word that begins with a digit leaves no
trace of its underscore.
-/

/-! ## Lists that can be cut again -/

section Blocks

variable {α : Type*} {marked : α → Prop}

/-- The first element is marked, and the others are not. -/
def Block (marked : α → Prop) (w : List α) : Prop :=
  ∃ a rest, w = a :: rest ∧ marked a ∧ ∀ b ∈ rest, ¬ marked b

/-- What is before the first marked element is known. -/
theorem unmarked_append_inj {rest rest' xs xs' : List α} (hrest : ∀ b ∈ rest, ¬ marked b)
    (hrest' : ∀ b ∈ rest', ¬ marked b) (hxs : ∀ a ∈ xs.head?, marked a)
    (hxs' : ∀ a ∈ xs'.head?, marked a) (h : rest ++ xs = rest' ++ xs') : rest = rest' ∧ xs = xs' := by
  induction rest generalizing rest' with
  | nil =>
    cases rest' with
    | nil => exact ⟨rfl, h⟩
    | cons b rest' =>
      rw [List.nil_append] at h
      exact absurd (hxs b (by simp [h])) (hrest' b List.mem_cons_self)
  | cons b rest ih =>
    cases rest' with
    | nil =>
      rw [List.nil_append] at h
      exact absurd (hxs' b (by simp [← h])) (hrest b List.mem_cons_self)
    | cons b' rest' =>
      rw [List.cons_append, List.cons_append] at h
      obtain ⟨rfl, htail⟩ := List.cons.inj h
      obtain ⟨rfl, rfl⟩ := ih (fun c hc => hrest c (List.mem_cons_of_mem _ hc))
        (fun c hc => hrest' c (List.mem_cons_of_mem _ hc)) htail
      exact ⟨rfl, rfl⟩

theorem head_flatten_blocks {ws : List (List α)} (h : ∀ w ∈ ws, Block marked w) :
    ∀ a ∈ ws.flatten.head?, marked a := by
  cases ws with
  | nil => exact nofun
  | cons w ws =>
    obtain ⟨a, rest, rfl, ha, -⟩ := h w List.mem_cons_self
    intro b hb
    obtain rfl : a = b := by simpa using hb
    exact ha

/-- Blocks that have been put together can be told apart. -/
theorem flatten_blocks_inj {ws ws' : List (List α)} (h : ∀ w ∈ ws, Block marked w)
    (h' : ∀ w ∈ ws', Block marked w) (heq : ws.flatten = ws'.flatten) : ws = ws' := by
  induction ws generalizing ws' with
  | nil =>
    cases ws' with
    | nil => rfl
    | cons w' ws' =>
      obtain ⟨a, rest, rfl, -⟩ := h' w' List.mem_cons_self
      cases heq
  | cons w ws ih =>
    obtain ⟨a, rest, rfl, -, hrest⟩ := h w List.mem_cons_self
    cases ws' with
    | nil => cases heq
    | cons w' ws' =>
      obtain ⟨a', rest', rfl, -, hrest'⟩ := h' w' List.mem_cons_self
      rw [List.flatten_cons, List.flatten_cons, List.cons_append, List.cons_append] at heq
      obtain ⟨rfl, htail⟩ := List.cons.inj heq
      have hws : ∀ w ∈ ws, Block marked w := fun w hw => h w (List.mem_cons_of_mem _ hw)
      have hws' : ∀ w ∈ ws', Block marked w := fun w hw => h' w (List.mem_cons_of_mem _ hw)
      obtain ⟨rfl, hflatten⟩ := unmarked_append_inj hrest hrest' (head_flatten_blocks hws)
        (head_flatten_blocks hws') htail
      rw [ih hws hws' hflatten]

end Blocks

namespace ServiceMacro

variable {τ : Type}

/-! ## Conventional names -/

/-- A lowercase letter, and after it lowercase letters and digits. -/
def IsWord (w : List Char) : Prop :=
  ∃ c rest, w = c :: rest ∧ c.isLower = true ∧ ∀ d ∈ rest, (d.isLower || d.isDigit) = true

instance : DecidablePred IsWord
  | [] => .isFalse nofun
  | c :: rest =>
    decidable_of_iff (c.isLower = true ∧ rest.all (fun d => d.isLower || d.isDigit) = true) <| by
      simp [IsWord]

/-- Words joined by underscores. -/
def Conventional (name : String) : Prop := ∀ w ∈ name.toList.splitOn '_', IsWord w

instance (name : String) : Decidable (Conventional name) :=
  inferInstanceAs (Decidable (∀ w ∈ name.toList.splitOn '_', IsWord w))

/-- On ASCII the case mapping is the one of ASCII. -/
def CaseMap.Ascii (case : CaseMap) : Prop := ∀ c : Char, c.toNat < 128 → case.toUppercase c = [c.toUpper]

section

variable {case : CaseMap} {c d : Char} {name name' : String}

theorem not_isUpper (h : (c.isLower || c.isDigit) = true) : ¬ c.isUpper = true := by
  intro hupper
  rcases Bool.or_eq_true _ _ ▸ h with hlower | hdigit
  · exact Char.not_isUpper_of_isLower hlower hupper
  · simp [Char.isUpper, Char.isDigit, UInt32.le_iff_toNat_le] at hdigit hupper
    omega

/-- A character that is no capital is known by its capital. -/
theorem toUpper_inj (hc : ¬ c.isUpper = true) (hd : ¬ d.isUpper = true) (h : c.toUpper = d.toUpper) :
    c = d := by
  rw [← Char.toLower_eq_of_not_isUpper hc, ← Char.toLower_eq_of_not_isUpper hd,
    ← Char.toLower_toUpper_eq_toLower c, ← Char.toLower_toUpper_eq_toLower d, h]

theorem IsWord.not_isUpper {w : List Char} (h : IsWord w) : ∀ c ∈ w, ¬ c.isUpper = true := by
  obtain ⟨c, rest, rfl, hc, hrest⟩ := h
  refine List.forall_mem_cons.2 ⟨Char.not_isUpper_of_isLower hc, fun d hd => ?_⟩
  exact ServiceMacro.not_isUpper (hrest d hd)

/-- What is no separator is in one of the parts. -/
theorem exists_mem_splitOn {cs : List Char} (hc : c ∈ cs) (hne : c ≠ '_') : ∃ w ∈ cs.splitOn '_', c ∈ w := by
  induction cs with
  | nil => cases hc
  | cons d ds ih =>
    rw [List.splitOn_cons_eq_if_modifyHead]
    split
    · rename_i hsep
      have hmem : c ∈ ds := (List.mem_cons.1 hc).resolve_left fun heq => hne (heq.trans (beq_iff_eq.1 hsep))
      obtain ⟨w, hw, hcw⟩ := ih hmem
      exact ⟨w, List.mem_cons_of_mem _ hw, hcw⟩
    · obtain ⟨w₀, ws, hparts⟩ := List.exists_cons_of_ne_nil (List.splitOn_ne_nil '_' ds)
      rw [hparts, List.modifyHead_cons]
      rcases List.mem_cons.1 hc with rfl | hmem
      · exact ⟨_, List.mem_cons_self, List.mem_cons_self⟩
      · obtain ⟨w, hw, hcw⟩ := ih hmem
        rw [hparts] at hw
        rcases List.mem_cons.1 hw with rfl | hw
        · exact ⟨_, List.mem_cons_self, List.mem_cons_of_mem _ hcw⟩
        · exact ⟨w, List.mem_cons_of_mem _ hw, hcw⟩

theorem Conventional.not_isUpper (h : Conventional name) (hc : c ∈ name.toList) :
    ¬ c.isUpper = true := by
  by_cases hne : c = '_'
  · subst hne
    decide
  · obtain ⟨w, hw, hcw⟩ := exists_mem_splitOn hc hne
    exact (h w hw).not_isUpper c hcw

theorem toNat_lt_of_word (h : (c.isLower || c.isDigit) = true) : c.toNat < 128 := by
  rcases Bool.or_eq_true _ _ ▸ h with hlower | hdigit
  · simp [Char.isLower, UInt32.le_iff_toNat_le] at hlower
    omega
  · simp [Char.isDigit, UInt32.le_iff_toNat_le] at hdigit
    omega

theorem Conventional.toNat_lt (h : Conventional name) (hc : c ∈ name.toList) : c.toNat < 128 := by
  by_cases hne : c = '_'
  · subst hne
    decide
  · obtain ⟨w, hw, hcw⟩ := exists_mem_splitOn hc hne
    obtain ⟨d, rest, rfl, hd, hrest⟩ := h w hw
    rcases List.mem_cons.1 hcw with rfl | hmem
    · exact toNat_lt_of_word (by rw [hd, Bool.true_or])
    · exact toNat_lt_of_word (hrest c hmem)

/-! ## Constants -/

theorem toList_upper (hcase : case.Ascii) (h : Conventional name) :
    (case.upper name).toList = name.toList.map Char.toUpper := by
  rw [CaseMap.upper, String.toList_ofList, List.map_eq_flatMap]
  exact List.flatMap_congr fun c hc => hcase c (h.toNat_lt hc)

theorem map_toLower_upper (hcase : case.Ascii) (h : Conventional name) :
    (case.upper name).toList.map Char.toLower = name.toList := by
  rw [toList_upper hcase h, List.map_map]
  refine (List.map_congr_left fun c hc => ?_).trans (List.map_id _)
  rw [Function.comp_apply, Char.toLower_toUpper_eq_toLower,
    Char.toLower_eq_of_not_isUpper (h.not_isUpper hc), id]

theorem upper_inj (hcase : case.Ascii) (h : Conventional name) (h' : Conventional name')
    (heq : case.upper name = case.upper name') : name = name' := by
  rw [← String.toList_inj, ← map_toLower_upper hcase h, ← map_toLower_upper hcase h', heq]

/-! ## Types -/

/-- A part as `to_pascal_case` writes it. -/
def capital : List Char → List Char
  | [] => []
  | c :: chars => c.toUpper :: chars

theorem toList_toPascalCase (hcase : case.Ascii) (h : Conventional name) :
    (case.toPascalCase name).toList = ((name.toList.splitOn '_').map capital).flatten := by
  rw [CaseMap.toPascalCase, String.toList_ofList, ← List.flatMap_def]
  refine List.flatMap_congr fun w hw => ?_
  obtain ⟨c, rest, rfl, hc, -⟩ := h w hw
  simp only [capital, hcase c (toNat_lt_of_word (by rw [hc, Bool.true_or])), List.singleton_append]

theorem block_capital {w : List Char} (h : IsWord w) : Block (fun c => c.isUpper = true) (capital w) := by
  obtain ⟨c, rest, rfl, hc, hrest⟩ := h
  refine ⟨c.toUpper, rest, rfl, ?_, fun d hd => ServiceMacro.not_isUpper (hrest d hd)⟩
  show c.toUpper.isUpper = true
  rw [Char.isUpper_toUpper_eq_isAlpha, Char.isAlpha, hc, Bool.or_true]

theorem capital_inj {w w' : List Char} (h : IsWord w) (h' : IsWord w') (heq : capital w = capital w') :
    w = w' := by
  obtain ⟨c, rest, rfl, hc, -⟩ := h
  obtain ⟨c', rest', rfl, hc', -⟩ := h'
  obtain ⟨hupper, rfl⟩ := List.cons.inj heq
  rw [toUpper_inj (Char.not_isUpper_of_isLower hc) (Char.not_isUpper_of_isLower hc') hupper]

theorem map_capital_inj {ws ws' : List (List Char)} (h : ∀ w ∈ ws, IsWord w) (h' : ∀ w ∈ ws', IsWord w)
    (heq : ws.map capital = ws'.map capital) : ws = ws' := by
  induction ws generalizing ws' with
  | nil => exact (List.map_eq_nil_iff.1 heq.symm).symm
  | cons w ws ih =>
    cases ws' with
    | nil => cases heq
    | cons w' ws' =>
      obtain ⟨hhead, htail⟩ := List.cons.inj heq
      rw [capital_inj (h w List.mem_cons_self) (h' w' List.mem_cons_self) hhead,
        ih (fun w hw => h w (List.mem_cons_of_mem _ hw)) (fun w hw => h' w (List.mem_cons_of_mem _ hw)) htail]

theorem toPascalCase_inj (hcase : case.Ascii) (h : Conventional name) (h' : Conventional name')
    (heq : case.toPascalCase name = case.toPascalCase name') : name = name' := by
  have hflatten := congrArg String.toList heq
  rw [toList_toPascalCase hcase h, toList_toPascalCase hcase h'] at hflatten
  have hcapital := flatten_blocks_inj (List.forall_mem_map.2 fun w hw => block_capital (h w hw))
    (List.forall_mem_map.2 fun w hw => block_capital (h' w hw)) hflatten
  have hparts := map_capital_inj h h' hcapital
  refine String.toList_inj.1 ?_
  calc name.toList = ['_'].intercalate (name.toList.splitOn '_') := (List.intercalate_splitOn '_').symm
    _ = ['_'].intercalate (name'.toList.splitOn '_') := by rw [hparts]
    _ = name'.toList := List.intercalate_splitOn '_'

/-- The two suffixes are told apart by their last letters. -/
theorem reqName_ne_respName (m m' : MethodDef τ) : m.reqName case ≠ m'.respName case := by
  intro heq
  have hlast := congrArg (fun s => s.toList.getLast?) heq
  simp [MethodDef.reqName, MethodDef.respName, String.toList_append] at hlast

theorem reqName_inj (hcase : case.Ascii) {m m' : MethodDef τ} (h : Conventional m.name)
    (h' : Conventional m'.name) (heq : m.reqName case = m'.reqName case) : m.name = m'.name :=
  toPascalCase_inj hcase h h' ((String.append_left_inj _).1 heq)

theorem respName_inj (hcase : case.Ascii) {m m' : MethodDef τ} (h : Conventional m.name)
    (h' : Conventional m'.name) (heq : m.respName case = m'.respName case) : m.name = m'.name :=
  toPascalCase_inj hcase h h' ((String.append_left_inj _).1 heq)

end

/-! ## Modules -/

section

variable {case : CaseMap} {methods : List (MethodDef τ)}

/-- Methods with distinct names are told apart by all that their names can be read from. -/
theorem pairwise_of_nodup_names (h : (methods.map MethodDef.name).Nodup)
    {R : MethodDef τ → MethodDef τ → Prop}
    (hR : ∀ m ∈ methods, ∀ m' ∈ methods, m.name ≠ m'.name → R m m') : methods.Pairwise R :=
  (List.pairwise_map.1 h).imp_of_mem fun hm hm' => hR _ hm _ hm'

theorem nodup_constName (hcase : case.Ascii) (hconv : ∀ m ∈ methods, Conventional m.name)
    (h : (methods.map MethodDef.name).Nodup) : (methods.map (MethodDef.constName case)).Nodup :=
  List.pairwise_map.2 <| pairwise_of_nodup_names h fun m hm m' hm' hne heq =>
    hne (upper_inj hcase (hconv m hm) (hconv m' hm') heq)

theorem nodup_typeDefs (hcase : case.Ascii) (hconv : ∀ m ∈ methods, Conventional m.name)
    (h : (methods.map MethodDef.name).Nodup) :
    ((methods.flatMap (MethodDef.typeDefs case)).map Prod.fst).Nodup := by
  rw [List.map_flatMap, List.nodup_flatMap]
  constructor
  · intro m hm
    simpa [MethodDef.typeDefs] using reqName_ne_respName m m
  · refine pairwise_of_nodup_names h fun m hm m' hm' hne => ?_
    simp only [Function.onFun, MethodDef.typeDefs, List.map_cons, List.map_nil,
      List.disjoint_cons_left, List.mem_cons, List.not_mem_nil, or_false, not_or]
    have hconvm := hconv m hm
    have hconvm' := hconv m' hm'
    refine ⟨⟨fun heq => hne (reqName_inj hcase hconvm hconvm' heq), reqName_ne_respName m m'⟩,
      ⟨fun heq => reqName_ne_respName m' m heq.symm, fun heq => hne (respName_inj hcase hconvm hconvm' heq)⟩,
      List.disjoint_nil_left _⟩

/-- A service whose methods have conventional names is generated without a collision if and only
    if no two methods, and no two arguments of a method, have the same name. -/
theorem wellNamed_iff_distinct (hcase : case.Ascii) (hconv : ∀ m ∈ methods, Conventional m.name) :
    WellNamed case methods ↔
      (methods.map MethodDef.name).Nodup ∧ ∀ m ∈ methods, m.argNames.Nodup := by
  constructor
  · intro hnames
    exact ⟨hnames.names_nodup, hnames.args⟩
  · rintro ⟨hnames, hargs⟩
    exact ⟨nodup_constName hcase hconv hnames, nodup_typeDefs hcase hconv hnames, hargs⟩

theorem wellNamed_iff_distinct_two :
    WellNamed ascii (["get_item", "getitem"].map fun name => MethodDef.mk name [("id", Ty.u8)] .u8) :=
  (wellNamed_iff_distinct (fun _ _ => rfl) (by decide)).2 (by decide)

/-- A word that begins with a digit is joined to the one before it. -/
example : ascii.toPascalCase "get_2" = ascii.toPascalCase "get2" := by decide

end

end ServiceMacro
