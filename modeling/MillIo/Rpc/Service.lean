-- SUMMARY: The `service!` macro of `mill-rpc-macros/src/lib.rs`: what it accepts and generates, and what the generated client and dispatcher do.
import MillIo.Rpc.Codec
import Mathlib.Data.List.Forall2
import Mathlib.Data.List.Nodup

/-!
# The `service!` macro

The macro makes a module of a service: the ids of the methods, the types of their
requests and responses, the dispatcher and the client. The code that it generates is
given a meaning here: a name is looked up in the module, a struct has its fields by name.
Where there is no such name, or a value is none of the type, there is no meaning, as the
code would not compile. A call takes the state of the service to the next.
-/

variable {τ ν κ σ : Type}

namespace ServiceMacro

/-! ## What the macro accepts -/

inductive Pat
  | ident (name : String)
  | other
  deriving DecidableEq

inductive FnArg (τ : Type)
  | typed (pat : Pat) (ty : τ)
  | receiver
  deriving DecidableEq

/-- Of a method, what the macro reads. -/
structure TraitItemFn (τ : Type) where
  ident : String
  inputs : List (FnArg τ)
  output : Option τ
  deriving DecidableEq

/-- `service Name { .. }`, whatever the first word is. -/
structure Declaration (τ : Type) where
  keyword : String
  name : String
  items : List (TraitItemFn τ)
  deriving DecidableEq

inductive GenerateMode
  | both
  | serverOnly
  | clientOnly
  deriving DecidableEq

structure MethodDef (τ : Type) where
  name : String
  args : List (String × τ)
  returnType : τ
  deriving DecidableEq

structure ServiceDef (τ : Type) where
  mode : GenerateMode
  name : String
  methods : List (MethodDef τ)
  deriving DecidableEq

def parseMode : Option String → Except String GenerateMode
  | none => .ok .both
  | some attr =>
    if attr = "server" then .ok .serverOnly
    else if attr = "client" then .ok .clientOnly
    else .error s!"Unknown attribute `{attr}`, expected `server` or `client`"

def parseArg : FnArg τ → Except String (String × τ)
  | .typed (.ident name) ty => .ok (name, ty)
  | .typed .other _ => .error "Expected a simple identifier for argument name"
  | .receiver => .error "Service methods should not have `self` parameter"

/-- A method without a return type returns `()`. -/
def parseMethod (unit : τ) (item : TraitItemFn τ) : Except String (MethodDef τ) := do
  let args ← item.inputs.mapM parseArg
  .ok ⟨item.ident, args, item.output.getD unit⟩

/-- `ServiceDef::parse`. The attribute is `#[server]`, `#[client]` or none. -/
def ServiceDef.parse (unit : τ) (attr : Option String) (decl : Declaration τ) :
    Except String (ServiceDef τ) := do
  let mode ← parseMode attr
  if decl.keyword ≠ "service" then .error "Expected `service`"
  else do
    let methods ← decl.items.mapM (parseMethod unit)
    .ok ⟨mode, decl.name, methods⟩

/-! ## What the macro generates -/

/-- Unicode's case mappings. `lowercase` is the first character of `to_lowercase`. -/
structure CaseMap where
  toUppercase : Char → List Char
  isUppercase : Char → Bool
  lowercase : Char → Char

namespace CaseMap

variable (case : CaseMap)

def upper (s : String) : String := String.ofList (s.toList.flatMap case.toUppercase)

def toSnakeCase (s : String) : String :=
  String.ofList (s.toList.zipIdx.flatMap fun p =>
    if case.isUppercase p.1 then (if p.2 > 0 then ['_'] else []) ++ [case.lowercase p.1] else [p.1])

def toPascalCase (s : String) : String :=
  String.ofList ((s.toList.splitOn '_').flatMap fun part =>
    match part with
    | [] => []
    | c :: chars => case.toUppercase c ++ chars)

end CaseMap

/-- How a client method builds its request. -/
inductive ReqConstruct
  | unit
  /-- Each field from a variable. -/
  | struct (fields : List (String × String))
  deriving DecidableEq

structure TraitMethod (τ : Type) where
  name : String
  args : List (String × τ)
  returnType : τ
  deriving DecidableEq

/-- An arm of the `match` of `dispatch`. The arguments of the call are fields of the
    request. -/
structure Arm where
  constName : String
  reqName : String
  method : String
  callArgs : List String
  respName : String
  deriving DecidableEq

structure Server (τ : Type) where
  trait : List (TraitMethod τ)
  arms : List Arm
  deriving DecidableEq

structure ClientMethod (τ : Type) where
  name : String
  args : List (String × τ)
  returnType : τ
  construct : ReqConstruct
  reqName : String
  constName : String
  respName : String
  deriving DecidableEq

structure Module (τ : Type) where
  name : String
  serviceName : String
  methodCount : UInt16
  methods : List (String × UInt16)
  types : List (String × TypeDef τ)
  server : Option (Server τ)
  client : Option (List (ClientMethod τ))
  deriving DecidableEq

section Generate

variable (case : CaseMap)

namespace MethodDef

variable (m : MethodDef τ)

def constName : String := case.upper m.name
def reqName : String := case.toPascalCase m.name ++ "Request"
def respName : String := case.toPascalCase m.name ++ "Response"
def argNames : List String := m.args.map Prod.fst

def request : TypeDef τ := if m.args.isEmpty then .unit else .struct m.args
def response : TypeDef τ := .newtype m.returnType

def typeDefs : List (String × TypeDef τ) :=
  [(m.reqName case, m.request), (m.respName case, m.response)]

def traitMethod : TraitMethod τ := ⟨m.name, m.args, m.returnType⟩

def arm : Arm where
  constName := m.constName case
  reqName := m.reqName case
  method := m.name
  callArgs := if m.args.isEmpty then [] else m.argNames
  respName := m.respName case

def clientMethod : ClientMethod τ where
  name := m.name
  args := m.args
  returnType := m.returnType
  construct := if m.args.isEmpty then .unit else .struct (m.argNames.map fun n => (n, n))
  reqName := m.reqName case
  constName := m.constName case
  respName := m.respName case

end MethodDef

def methodConsts (methods : List (MethodDef τ)) : List (String × UInt16) :=
  methods.zipIdx.map fun p => (p.1.constName case, UInt16.ofNat p.2)

/-- `generate_service_module`. -/
def generate (d : ServiceDef τ) : Module τ where
  name := case.toSnakeCase d.name
  serviceName := d.name
  methodCount := UInt16.ofNat d.methods.length
  methods := methodConsts case d.methods
  types := d.methods.flatMap (MethodDef.typeDefs case)
  server :=
    if d.mode ≠ .clientOnly then
      some ⟨d.methods.map MethodDef.traitMethod, d.methods.map (MethodDef.arm case)⟩
    else none
  client := if d.mode ≠ .serverOnly then some (d.methods.map (MethodDef.clientMethod case)) else none

end Generate

/-! ## What the generated code does -/

/-- An implementation of the trait `Service`: what a method returns in a context on some
    arguments, and the state that it leaves. -/
abbrev Service (κ ν σ : Type) := String → κ → List ν → σ → ν × σ

/-- `RpcTransport::call` with a service id, a method id and a payload. -/
abbrev Transport (σ : Type) :=
  UInt16 → UInt16 → List UInt8 → σ → Option (Except RpcError (List UInt8) × σ)

variable (g : Module τ) (c : Codec τ ν)

/-- The body of an arm. -/
def Arm.run (svc : Service κ ν σ) (ctx : κ) (args : List UInt8) (s : σ) (arm : Arm) :
    Option (Except RpcError (List UInt8) × σ) :=
  (g.types.lookup arm.reqName).bind fun reqDef =>
    (g.types.lookup arm.respName).bind fun respDef =>
      match c.deserialize reqDef args with
      | .error e => some (.error e, s)
      | .ok req =>
        (arm.callArgs.mapM req.field).map fun values =>
          let r := svc arm.method ctx values s
          (c.serialize respDef (.newtype r.1), r.2)

/-- `Dispatcher::dispatch`, whose arms are tried in their order. -/
def dispatch (svc : Service κ ν σ) (ctx : κ) (methodId : UInt16) (args : List UInt8) (s : σ) :
    List Arm → Option (Except RpcError (List UInt8) × σ)
  | [] => some (.error (.methodNotFound methodId), s)
  | arm :: arms =>
    (g.methods.lookup arm.constName).bind fun id =>
      if methodId = id then arm.run g c svc ctx args s else dispatch svc ctx methodId args s arms

def ReqConstruct.eval (env : List (String × ν)) : ReqConstruct → Option (Data ν)
  | .unit => some .unit
  | .struct fields => (fields.mapM fun p => (env.lookup p.2).map fun v => (p.1, v)).map .struct

/-- A method of the generated client on some arguments. -/
def ClientMethod.call (transport : Transport σ) (serviceId : UInt16) (m : ClientMethod τ)
    (values : List ν) (s : σ) : Option (Except RpcError ν × σ) :=
  (g.types.lookup m.reqName).bind fun reqDef =>
    (g.types.lookup m.respName).bind fun respDef =>
      (g.methods.lookup m.constName).bind fun id =>
        (m.construct.eval ((m.args.map Prod.fst).zip values)).bind fun req =>
          match c.serialize reqDef req with
          | .error e => some (.error e, s)
          | .ok payload =>
            (transport serviceId id payload s).bind fun
              | (.error e, s) => some (.error e, s)
              | (.ok respBytes, s) =>
                match c.deserialize respDef respBytes with
                | .error e => some (.error e, s)
                | .ok resp => resp.inner.map fun value => (.ok value, s)

/-! ## What is asked of a service -/

/-- The constants, the types and the arguments of each method have distinct names. -/
structure WellNamed (case : CaseMap) (methods : List (MethodDef τ)) : Prop where
  consts : (methods.map (MethodDef.constName case)).Nodup
  types : ((methods.flatMap (MethodDef.typeDefs case)).map Prod.fst).Nodup
  args : ∀ m ∈ methods, m.argNames.Nodup

/-- One value for each argument, of its type. -/
def MethodDef.Accepts (HasType : τ → ν → Prop) (m : MethodDef τ) (values : List ν) : Prop :=
  List.Forall₂ (fun arg value => HasType arg.2 value) m.args values

/-- A method of the service returns a value of its return type. -/
def WellTyped (HasType : τ → ν → Prop) (svc : Service κ ν σ) (methods : List (MethodDef τ)) : Prop :=
  ∀ m ∈ methods, ∀ ctx values s, m.Accepts HasType values → HasType m.returnType (svc m.name ctx values s).1

/-! ## The two halves of a service -/

section

variable {unit : τ} {decl : Declaration τ} {attr attr' : Option String} {d d' : ServiceDef τ}

/-- The attribute decides on the mode alone. -/
theorem methods_of_parse (h : ServiceDef.parse unit attr decl = .ok d)
    (h' : ServiceDef.parse unit attr' decl = .ok d') : d'.methods = d.methods := by
  unfold ServiceDef.parse at h h'
  cases hmode : parseMode attr with
  | error e =>
    rw [hmode] at h
    cases h
  | ok mode =>
    cases hmode' : parseMode attr' with
    | error e =>
      rw [hmode'] at h'
      cases h'
    | ok mode' =>
      rw [hmode] at h
      rw [hmode'] at h'
      simp only [bind, Except.bind] at h h'
      split at h
      · cases h
      · rename_i hkeyword
        rw [if_neg hkeyword] at h'
        cases hmethods : decl.items.mapM (parseMethod unit) with
        | error e =>
          rw [hmethods] at h
          cases h
        | ok methods =>
          rw [hmethods] at h h'
          cases h
          cases h'
          rfl

variable {case : CaseMap} {client : List (ClientMethod τ)} {server : Server τ}

theorem client_eq (h : (generate case d).client = some client) :
    client = d.methods.map (MethodDef.clientMethod case) := by
  simp only [generate] at h
  split at h
  · exact (Option.some.inj h).symm
  · cases h

theorem arms_eq (h : (generate case d).server = some server) :
    server.arms = d.methods.map (MethodDef.arm case) := by
  simp only [generate] at h
  split at h
  · rw [← Option.some.inj h]
  · cases h

end

/-! ## Names -/

section

variable {case : CaseMap} {methods : List (MethodDef τ)} {m : MethodDef τ}

theorem mapM_of_forall₂ {α β : Type} {f : α → Option β} {as : List α} {bs : List β}
    (h : List.Forall₂ (fun a b => f a = some b) as bs) : as.mapM f = some bs := by
  induction h with
  | nil => rfl
  | cons hfirst _ ih => simp [List.mapM_cons, hfirst, ih]

theorem forall₂_zip {α β : Type} {R : α → β → Prop} {as : List α} {bs : List β}
    (h : List.Forall₂ R as bs) :
    List.Forall₂ (fun a p => p.1 = a ∧ R p.1 p.2) as (as.zip bs) := by
  induction h with
  | nil => exact .nil
  | cons hfirst _ ih => exact .cons ⟨rfl, hfirst⟩ ih

/-- The constants are made of the names. -/
theorem WellNamed.names_nodup (h : WellNamed case methods) : (methods.map MethodDef.name).Nodup := by
  refine List.Nodup.of_map case.upper ?_
  rw [List.map_map]
  exact h.consts

theorem lookup_reqName (h : WellNamed case methods) (hm : m ∈ methods) :
    (methods.flatMap (MethodDef.typeDefs case)).lookup (m.reqName case) = some m.request :=
  Codec.lookup_of_mem h.types (e := (m.reqName case, m.request))
    (List.mem_flatMap.2 ⟨m, hm, List.mem_cons_self ..⟩)

theorem lookup_respName (h : WellNamed case methods) (hm : m ∈ methods) :
    (methods.flatMap (MethodDef.typeDefs case)).lookup (m.respName case) = some m.response :=
  Codec.lookup_of_mem h.types (e := (m.respName case, m.response))
    (List.mem_flatMap.2 ⟨m, hm, List.mem_cons_of_mem _ (List.mem_singleton_self _)⟩)

theorem lookup_constName (h : WellNamed case methods) {i : ℕ} (hm : methods[i]? = some m) :
    (methodConsts case methods).lookup (m.constName case) = some (UInt16.ofNat i) := by
  have hnames : (methodConsts case methods).map Prod.fst = methods.map (MethodDef.constName case) := by
    have hfst : methods.zipIdx.map Prod.fst = methods := List.zipIdx_map_fst 0 methods
    conv_rhs => rw [← hfst]
    rw [methodConsts, List.map_map, List.map_map]
    rfl
  refine Codec.lookup_of_mem (hnames ▸ h.consts) (e := (m.constName case, UInt16.ofNat i)) ?_
  exact List.mem_map.2 ⟨(m, i), List.mk_mem_zipIdx_iff_getElem?.2 hm, rfl⟩

/-- The arguments by their names. -/
theorem forall₂_lookup {HasType : τ → ν → Prop} {values : List ν} (hnodup : m.argNames.Nodup)
    (h : m.Accepts HasType values) :
    List.Forall₂ (fun name value => (m.argNames.zip values).lookup name = some value) m.argNames
      values := by
  have hlength : m.argNames.length = values.length := by
    rw [MethodDef.argNames, List.length_map]
    exact h.length_eq
  have hkeys : ((m.argNames.zip values).map Prod.fst).Nodup := by
    rwa [List.map_fst_zip (Nat.le_of_eq hlength)]
  exact List.forall₂_iff_zip.2 ⟨hlength, fun hmem => Codec.lookup_of_mem hkeys hmem⟩

/-- The fields that the client gives them to. -/
theorem fields_zip {HasType : τ → ν → Prop} {fields : List (String × τ)} {values : List ν}
    (h : List.Forall₂ (fun field value => HasType field.2 value) fields values) :
    List.Forall₂ (fun field entry => entry.1 = field.1 ∧ HasType field.2 entry.2) fields
      ((fields.map Prod.fst).zip values) := by
  induction h with
  | nil => exact .nil
  | cons hvalue _ ih => exact .cons ⟨rfl, hvalue⟩ ih

end

/-! ## A call and its request -/

section

variable {c : Codec τ ν} {HasType : τ → ν → Prop} {m : MethodDef τ} {values : List ν}

/-- The request that the client builds and writes is one from which the dispatcher takes
    the same arguments. -/
theorem request_round (case : CaseMap) (hround : c.RoundTrips HasType m.request)
    (hnodup : m.argNames.Nodup) (hvalues : m.Accepts HasType values) :
    ∃ req payload, (m.clientMethod case).construct.eval (m.argNames.zip values) = some req ∧
      c.serialize m.request req = .ok payload ∧ c.deserialize m.request payload = .ok req ∧
      (m.arm case).callArgs.mapM req.field = some values := by
  have hround' {req : Data ν} (hreq : req.Of HasType m.request) :
      ∃ payload, c.serialize m.request req = .ok payload ∧ c.deserialize m.request payload = .ok req :=
    Codec.deserialize_serialize hround hreq
  cases hargs : m.args with
  | nil =>
    have hnone : values = [] := by
      rw [MethodDef.Accepts, hargs] at hvalues
      exact List.forall₂_nil_left_iff.1 hvalues
    have hrequest : m.request = .unit := by
      rw [MethodDef.request, hargs]
      rfl
    obtain ⟨payload, hserialize, hdeserialize⟩ := hround' (hrequest ▸ Data.Of.unit)
    refine ⟨.unit, payload, ?_, hserialize, hdeserialize, ?_⟩ <;>
      simp [MethodDef.clientMethod, MethodDef.arm, hargs, hnone, ReqConstruct.eval]
  | cons arg args =>
    have hsome : m.args.isEmpty = false := by rw [hargs]; rfl
    have hlookup := forall₂_lookup hnodup hvalues
    have hrequest : m.request = .struct m.args := by
      rw [MethodDef.request, hsome]
      rfl
    have hof : (Data.struct (m.argNames.zip values)).Of HasType m.request := by
      rw [hrequest]
      exact .struct _ _ (fields_zip hvalues)
    obtain ⟨payload, hserialize, hdeserialize⟩ := hround' hof
    refine ⟨.struct (m.argNames.zip values), payload, ?_, hserialize, hdeserialize, ?_⟩
    · have hfields : (m.argNames.map fun n => (n, n)).mapM
          (fun p => ((m.argNames.zip values).lookup p.2).map fun v => (p.1, v)) =
          some (m.argNames.zip values) := by
        refine mapM_of_forall₂ ?_
        rw [List.forall₂_map_left_iff]
        exact (forall₂_zip hlookup).imp fun name entry hentry => by
          rw [← hentry.1, hentry.2]
          rfl
      simp only [MethodDef.clientMethod, hsome, Bool.false_eq_true, if_false, ReqConstruct.eval, hfields,
        Option.map_some]
    · simp only [MethodDef.arm, hsome, Bool.false_eq_true, if_false]
      exact mapM_of_forall₂ hlookup

end

section

variable {g : Module τ} {c : Codec τ ν} {svc : Service κ ν σ} {ctx : κ} {args : List UInt8} {s : σ}

/-- The arms have the ids from `k` on, one after the other. -/
def Numbered (g : Module τ) (k : ℕ) (arms : List Arm) : Prop :=
  ∀ i arm, arms[i]? = some arm → g.methods.lookup arm.constName = some (UInt16.ofNat (k + i))

theorem Numbered.tail {k : ℕ} {arm : Arm} {arms : List Arm} (h : Numbered g k (arm :: arms)) :
    Numbered g (k + 1) arms := by
  intro i arm' harm
  rw [Nat.add_right_comm, Nat.add_assoc]
  exact h (i + 1) arm' harm

/-- The arm of a method is the one that runs for its id. -/
theorem dispatch_eq_run {k i : ℕ} {arms : List Arm} {arm : Arm} (h : Numbered g k arms)
    (hcount : k + arms.length ≤ 65536) (harm : arms[i]? = some arm) :
    dispatch g c svc ctx (UInt16.ofNat (k + i)) args s arms = arm.run g c svc ctx args s := by
  induction arms generalizing k i with
  | nil => cases harm
  | cons first arms ih =>
    have hfirst := h 0 first rfl
    rw [dispatch, hfirst, Option.bind_some]
    cases i with
    | zero =>
      cases harm
      rw [if_pos rfl]
    | succ i =>
      have hlt : i < arms.length := Nat.lt_of_succ_lt_succ (List.getElem?_eq_some_iff.1 harm).1
      rw [List.length_cons] at hcount
      have hne : UInt16.ofNat (k + (i + 1)) ≠ UInt16.ofNat (k + 0) := by
        intro heq
        rw [← UInt16.toNat_inj, UInt16.toNat_ofNat', UInt16.toNat_ofNat'] at heq
        omega
      have hnext := ih h.tail (by omega) harm
      rw [if_neg hne, ← Nat.add_assoc, Nat.add_right_comm]
      exact hnext

/-- No arm runs for an id that none of them has. -/
theorem dispatch_eq_notFound {k : ℕ} {arms : List Arm} {methodId : UInt16} (h : Numbered g k arms)
    (hid : methodId ∉ g.methods.map Prod.snd) (hlookup : ∀ arm ∈ arms, ∀ id,
      g.methods.lookup arm.constName = some id → id ∈ g.methods.map Prod.snd) :
    dispatch g c svc ctx methodId args s arms = some (.error (.methodNotFound methodId), s) := by
  induction arms generalizing k with
  | nil => rfl
  | cons first arms ih =>
    obtain ⟨hfirstMem, hothers⟩ := List.forall_mem_cons.1 hlookup
    have hfirst := h 0 first rfl
    have hne : methodId ≠ UInt16.ofNat (k + 0) := fun heq => hid (heq ▸ hfirstMem _ hfirst)
    rw [dispatch, hfirst, Option.bind_some, if_neg hne]
    exact ih h.tail hothers

end

/-! ## Client and dispatcher -/

section

variable {case : CaseMap} {d d' : ServiceDef τ} {m : MethodDef τ} {c : Codec τ ν}
  {HasType : τ → ν → Prop} {svc : Service κ ν σ} {ctx : κ} {values : List ν} {s : σ}

theorem numbered_generate (h : WellNamed case d.methods) :
    Numbered (generate case d) 0 (d.methods.map (MethodDef.arm case)) := by
  intro i arm harm
  rw [List.getElem?_map, Option.map_eq_some_iff] at harm
  obtain ⟨m, hm, rfl⟩ := harm
  rw [Nat.zero_add]
  exact lookup_constName h hm

/-- The arm of a method answers the request with what the service returns. -/
theorem run_eq (hnames : WellNamed case d.methods) (hm : m ∈ d.methods) {payload bytes : List UInt8}
    {req : Data ν} (hreq : c.deserialize m.request payload = .ok req)
    (hargs : (m.arm case).callArgs.mapM req.field = some values)
    (hresp : c.serialize m.response (.newtype (svc m.name ctx values s).1) = .ok bytes) :
    (m.arm case).run (generate case d) c svc ctx payload s =
      some (.ok bytes, (svc m.name ctx values s).2) := by
  have hreqName : (generate case d).types.lookup (m.arm case).reqName = some m.request :=
    lookup_reqName hnames hm
  have hrespName : (generate case d).types.lookup (m.arm case).respName = some m.response :=
    lookup_respName hnames hm
  rw [Arm.run, hreqName, Option.bind_some, hrespName, Option.bind_some, hreq]
  simp only [hargs, Option.map_some]
  have hmethod : (m.arm case).method = m.name := rfl
  rw [hmethod, hresp]

/-- A call of the client returns what the service returns. -/
theorem call_eq (hmethods : d'.methods = d.methods) (hcount : d.methods.length ≤ 65536)
    (hnames : WellNamed case d.methods) (hm : m ∈ d.methods)
    (hrequest : c.RoundTrips HasType m.request) (hresponse : c.RoundTrips HasType m.response)
    (hsvc : WellTyped HasType svc d.methods) (hvalues : m.Accepts HasType values) (serviceId : UInt16) :
    (m.clientMethod case).call (generate case d') c
        (fun _ id payload s => dispatch (generate case d) c svc ctx id payload s
          (d.methods.map (MethodDef.arm case))) serviceId values s =
      some (.ok (svc m.name ctx values s).1, (svc m.name ctx values s).2) := by
  obtain ⟨i, hi⟩ := List.getElem?_of_mem hm
  obtain ⟨req, payload, hconstruct, hserialize, hdeserialize, hargs⟩ :=
    request_round case hrequest (hnames.args m hm) hvalues
  have hreturns : (Data.newtype (svc m.name ctx values s).1).Of HasType m.response :=
    .newtype _ _ (hsvc m hm ctx values s hvalues)
  obtain ⟨bytes, hresp, hinner⟩ := Codec.deserialize_serialize hresponse hreturns
  have harm : (d.methods.map (MethodDef.arm case))[i]? = some (m.arm case) := by
    rw [List.getElem?_map, hi, Option.map_some]
  have hdispatch : dispatch (generate case d) c svc ctx (UInt16.ofNat i) payload s
      (d.methods.map (MethodDef.arm case)) = some (.ok bytes, (svc m.name ctx values s).2) := by
    rw [← Nat.zero_add i, dispatch_eq_run (numbered_generate hnames) (by simpa using hcount) harm]
    exact run_eq hnames hm hdeserialize hargs hresp
  have hreqName : (generate case d').types.lookup (m.clientMethod case).reqName = some m.request := by
    simp only [generate, hmethods]
    exact lookup_reqName hnames hm
  have hrespName : (generate case d').types.lookup (m.clientMethod case).respName = some m.response := by
    simp only [generate, hmethods]
    exact lookup_respName hnames hm
  have hconstName : (generate case d').methods.lookup (m.clientMethod case).constName =
      some (UInt16.ofNat i) := by
    simp only [generate, hmethods]
    exact lookup_constName hnames hi
  rw [ClientMethod.call, hreqName, Option.bind_some, hrespName, Option.bind_some, hconstName,
    Option.bind_some]
  change ((m.clientMethod case).construct.eval (m.argNames.zip values)).bind _ = _
  rw [hconstruct, Option.bind_some, hserialize]
  simp only [hdispatch, Option.bind_some, hinner, Data.inner, Option.map_some]

end

/-- The method of the client that has a name. -/
def clientFn (client : List (ClientMethod τ)) (name : String) : Option (ClientMethod τ) :=
  client.find? fun m => m.name == name

theorem clientFn_eq {case : CaseMap} {methods : List (MethodDef τ)} {m : MethodDef τ}
    (h : (methods.map MethodDef.name).Nodup) (hm : m ∈ methods) :
    clientFn (methods.map (MethodDef.clientMethod case)) m.name = some (m.clientMethod case) := by
  induction methods with
  | nil => cases hm
  | cons first methods ih =>
    rw [List.map_cons, List.nodup_cons] at h
    rcases List.mem_cons.1 hm with rfl | hrest
    · exact List.find?_cons_of_pos (beq_self_eq_true m.name)
    · have hname : m.name ∈ methods.map MethodDef.name := List.mem_map_of_mem hrest
      have hne : (first.clientMethod case).name ≠ m.name :=
        fun heq : first.name = m.name => h.1 (heq ▸ hname)
      rw [clientFn, List.map_cons, List.find?_cons, beq_false_of_ne hne]
      exact ih h.2 hrest

/-- For every service that the macro accepts, expanded for the client and for the server,
    and every method: calling the method of the client on arguments of their types, through
    a transport that hands the request to the dispatcher, returns what the method of the
    service returns on them. And an id of no method is answered with `method_not_found`, and
    the state of the service, which may count its calls, is as it was. -/
theorem client_agrees_with_dispatcher {case : CaseMap} {unit : τ} {decl : Declaration τ}
    {attr attr' : Option String} {d d' : ServiceDef τ} {server : Server τ}
    {client : List (ClientMethod τ)} {c : Codec τ ν} {HasType : τ → ν → Prop} {svc : Service κ ν σ}
    (hparse : ServiceDef.parse unit attr decl = .ok d)
    (hparse' : ServiceDef.parse unit attr' decl = .ok d')
    (hserver : (generate case d).server = some server)
    (hclient : (generate case d').client = some client)
    (hcount : d.methods.length ≤ 65536) (hnames : WellNamed case d.methods)
    (hround : ∀ m ∈ d.methods, c.RoundTrips HasType m.request ∧ c.RoundTrips HasType m.response)
    (hsvc : WellTyped HasType svc d.methods) :
    (∀ m ∈ d.methods, ∃ fn, clientFn client m.name = some fn ∧
      ∀ ctx serviceId values s, m.Accepts HasType values →
        fn.call (generate case d') c
            (fun _ id payload s => dispatch (generate case d) c svc ctx id payload s server.arms)
            serviceId values s =
          some (.ok (svc m.name ctx values s).1, (svc m.name ctx values s).2)) ∧
    ∀ ctx methodId args s, methodId ∉ (generate case d).methods.map Prod.snd →
      dispatch (generate case d) c svc ctx methodId args s server.arms =
        some (.error (.methodNotFound methodId), s) := by
  have hmethods := methods_of_parse hparse hparse'
  have hfunctions := client_eq hclient
  rw [hmethods] at hfunctions
  have hdistinct : (d.methods.map MethodDef.name).Nodup := by
    have hconsts := hnames.consts
    have hupper : d.methods.map (MethodDef.constName case) =
        (d.methods.map MethodDef.name).map case.upper := by
      rw [List.map_map]
      rfl
    rw [hupper] at hconsts
    exact hconsts.of_map _
  refine ⟨fun m hm => ⟨m.clientMethod case, hfunctions ▸ clientFn_eq hdistinct hm, ?_⟩, ?_⟩
  · intro ctx serviceId values s hvalues
    rw [arms_eq hserver]
    exact call_eq hmethods hcount hnames hm (hround m hm).1 (hround m hm).2 hsvc hvalues serviceId
  · intro ctx methodId args s hid
    rw [arms_eq hserver]
    refine dispatch_eq_notFound (numbered_generate hnames) hid fun arm _ id hlookup => ?_
    obtain ⟨l, l', heq, -⟩ := List.lookup_eq_some_iff.1 hlookup
    rw [heq]
    simp

/-! ### A calculator with `fn add(a: u8, b: u8) -> u8` and `fn ping()` -/

inductive Ty
  | u8
  | unit
  deriving DecidableEq

inductive Value
  | u8 (n : UInt8)
  | unit
  deriving DecidableEq

def Value.ty : Value → Ty
  | u8 _ => .u8
  | unit => .unit

/-- `bincode` writes a `u8` as itself and `()` as nothing. -/
def u8Layout : Layout Ty Value where
  write
    | .u8, .u8 n => .ok [n]
    | .unit, .unit => .ok []
    | _, _ => .error "type error"
  read
    | .u8, n :: rest => .ok (.u8 n, rest)
    | .u8, [] => .error "io error: unexpected end of file"
    | .unit, rest => .ok (.unit, rest)

def u8Codec : Codec Ty Value := u8Layout.codec

def ascii : CaseMap := ⟨fun c => [c.toUpper], Char.isUpper, Char.toLower⟩

def calculator : Declaration Ty :=
  ⟨"service", "Calculator",
    [⟨"add", [.typed (.ident "a") .u8, .typed (.ident "b") .u8], some .u8⟩, ⟨"ping", [], none⟩]⟩

def calculatorMethods : List (MethodDef Ty) :=
  [⟨"add", [("a", .u8), ("b", .u8)], .u8⟩, ⟨"ping", [], .unit⟩]

/-- An implementation that counts its calls. -/
def myCalculator : Service Unit Value ℕ
  | "add", _, [.u8 a, .u8 b], n => (.u8 (a + b), n + 1)
  | _, _, _, n => (.unit, n + 1)

theorem roundTrips_u8Codec (ty : TypeDef Ty) :
    u8Codec.RoundTrips (fun ty value => value.ty = ty) ty := by
  refine Layout.roundTrips_codec fun ty _ => ?_
  rintro value rfl
  cases value with
  | u8 n => exact ⟨[n], rfl, fun rest => rfl⟩
  | unit => exact ⟨[], rfl, fun rest => rfl⟩

theorem wellTyped_myCalculator :
    WellTyped (fun ty value => value.ty = ty) myCalculator calculatorMethods := by
  intro m hm ctx values s hvalues
  rcases List.mem_cons.1 hm with rfl | hm
  · obtain ⟨first, rest, hfirst, hrest, rfl⟩ := List.forall₂_cons_left_iff.1 hvalues
    obtain ⟨second, rest, hsecond, hnone, rfl⟩ := List.forall₂_cons_left_iff.1 hrest
    obtain rfl := List.forall₂_nil_left_iff.1 hnone
    cases first with
    | unit => cases hfirst
    | u8 a =>
      cases second with
      | unit => cases hsecond
      | u8 b => rfl
  · rw [List.mem_singleton.1 hm]
    rfl

theorem client_agrees_with_dispatcher_calculator :
    (∃ fn, clientFn (calculatorMethods.map (MethodDef.clientMethod ascii)) "add" = some fn ∧
      fn.call (generate ascii ⟨.clientOnly, "Calculator", calculatorMethods⟩) u8Codec
          (fun _ id payload s =>
            dispatch (generate ascii ⟨.serverOnly, "Calculator", calculatorMethods⟩) u8Codec
              myCalculator () id payload s (calculatorMethods.map (MethodDef.arm ascii)))
          0 [.u8 2, .u8 3] 0 = some (.ok (.u8 5), 1)) ∧
    dispatch (generate ascii ⟨.serverOnly, "Calculator", calculatorMethods⟩) u8Codec myCalculator ()
      999 [] 0 (calculatorMethods.map (MethodDef.arm ascii)) =
        some (.error (.methodNotFound 999), 0) := by
  have hagree := client_agrees_with_dispatcher
    (show ServiceDef.parse Ty.unit (some "server") calculator =
      .ok ⟨.serverOnly, "Calculator", calculatorMethods⟩ from rfl)
    (show ServiceDef.parse Ty.unit (some "client") calculator =
      .ok ⟨.clientOnly, "Calculator", calculatorMethods⟩ from rfl)
    (show (generate ascii ⟨.serverOnly, "Calculator", calculatorMethods⟩).server = some _ from rfl)
    (show (generate ascii ⟨.clientOnly, "Calculator", calculatorMethods⟩).client = some _ from rfl)
    (by decide) ⟨by decide, by decide, by decide⟩
    (fun m _ => ⟨roundTrips_u8Codec m.request, roundTrips_u8Codec m.response⟩)
    wellTyped_myCalculator
  obtain ⟨fn, hfn, hcall⟩ := hagree.1 ⟨"add", [("a", .u8), ("b", .u8)], .u8⟩ (by decide)
  exact ⟨⟨fn, hfn, hcall () 0 [.u8 2, .u8 3] 0 (.cons rfl (.cons rfl .nil))⟩,
    hagree.2 () 999 [] 0 (by decide)⟩

end ServiceMacro
