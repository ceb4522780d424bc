import Ralf.Lib.Bytes

/-!
# Network services

The services that the configuration of a package lists: those it offers to everyone, those it
exports to other packages, and those it imports. `addAll` is a loop over the configured items that
skips those it does not take, and `portsKept_iff` says when it keeps the ports that the items say.
-/

/-- `strcasecmp` gives 0, in the C locale. -/
def strcaseEq (s t : Bytes) : Bool :=
  let lower (c : UInt8) : UInt8 := if 65 ≤ c ∧ c ≤ 90 then c + 32 else c
  (s.takeWhile (· ≠ 0)).map lower = (t.takeWhile (· ≠ 0)).map lower

namespace NetworkService

inductive Protocol
  | TCP
  | UDP
  deriving DecidableEq, Repr

/-- The protocol that a text names. -/
def protocolOf (text : Bytes) : Option Protocol :=
  if strcaseEq text [116, 99, 112] then some .TCP
  else if strcaseEq text [117, 100, 112] then some .UDP
  else none

end NetworkService

structure NetworkService where
  name : String := ""
  protocol : NetworkService.Protocol := .TCP
  port : UInt16 := 0
  deriving DecidableEq, Repr

/-- What a service is listed for, `NetworkServiceType` without `Unknown`. -/
inductive NetworkServiceType
  | Public
  | Exported
  | Imported
  deriving DecidableEq, Repr

/-- The services of a package. -/
structure Services where
  publicServices : List NetworkService := []
  exportedServices : List NetworkService := []
  importedServices : List NetworkService := []
  deriving DecidableEq, Repr

namespace Services

/-- The services of a type. -/
def ofType (services : Services) : NetworkServiceType → List NetworkService
  | .Public => services.publicServices
  | .Exported => services.exportedServices
  | .Imported => services.importedServices

/-- `emplace_back` to the services of a type. -/
def add (services : Services) (type : NetworkServiceType) (service : NetworkService) : Services :=
  match type with
  | .Public => { services with publicServices := services.publicServices ++ [service] }
  | .Exported => { services with exportedServices := services.exportedServices ++ [service] }
  | .Imported => { services with importedServices := services.importedServices ++ [service] }

/-- The ports of a type, as exact numbers. -/
def ports (services : Services) (type : NetworkServiceType) : List Int :=
  (services.ofType type).map fun service => (service.port.toNat : Int)

theorem ports_add (services : Services) (type type' : NetworkServiceType)
    (service : NetworkService) :
    (services.add type service).ports type' =
      services.ports type' ++ if type = type' then [(service.port.toNat : Int)] else [] := by
  cases type <;> cases type' <;> simp [ports, ofType, add]

variable {Item : Type} (parse : Item → Option (NetworkServiceType × NetworkService))

/-- A loop that adds the services of the items it takes. -/
def addAll (services : Services) (items : List Item) : Services :=
  items.foldl (fun services item =>
    match parse item with
    | some (type, service) => services.add type service
    | none => services) services

/-- The item is taken as a service of the type. -/
def takenAs (type : NetworkServiceType) (item : Item) : Bool :=
  (parse item).any fun (type', _) => type' = type

/-- The services of each type that are new have the ports that their items say. -/
def PortsKept (written : Item → Int) (items : List Item) (before after : Services) : Prop :=
  ∀ type, after.ports type = before.ports type ++ (items.filter (takenAs parse type)).map written

/-- The port that is kept for an item. -/
def keptPort (item : Item) : Int :=
  ((parse item).map fun (_, service) => (service.port.toNat : Int)).getD 0

/-- The loop keeps the ports of the services that it parses. -/
theorem ports_addAll (items : List Item) (services : Services) :
    PortsKept parse (keptPort parse) items services (services.addAll parse items) := by
  intro type
  induction items generalizing services with
  | nil => simp [addAll]
  | cons item rest ih =>
    have hrest := ih (match parse item with
      | some (type, service) => services.add type service
      | none => services)
    rw [addAll, List.foldl_cons, ← addAll, hrest]
    cases hparse : parse item with
    | none => simp [takenAs, hparse]
    | some taken =>
      obtain ⟨type', service⟩ := taken
      by_cases htype : type' = type
      · simp [ports_add, takenAs, keptPort, hparse, htype]
      · simp [ports_add, takenAs, hparse, htype]

/-- The loop keeps what the items say if and only if each service it parses has that port. -/
theorem portsKept_iff (written : Item → Int) (items : List Item) (services : Services) :
    PortsKept parse written items services (services.addAll parse items) ↔
      ∀ item ∈ items, ∀ type service, parse item = some (type, service) →
        (service.port.toNat : Int) = written item := by
  have hkept : ∀ type, (services.addAll parse items).ports type = services.ports type ++
      (items.filter (takenAs parse type)).map (keptPort parse) :=
    ports_addAll parse items services
  unfold PortsKept
  simp only [hkept, List.append_cancel_left_eq, List.map_inj_left, List.mem_filter]
  constructor
  · intro h item hitem type service hparse
    have hport := h type item ⟨hitem, by simp [takenAs, hparse]⟩
    rwa [keptPort, hparse] at hport
  · rintro h type item ⟨hitem, htaken⟩
    unfold takenAs at htaken
    cases hparse : parse item with
    | none => simp [hparse] at htaken
    | some taken =>
      have hport := h item hitem taken.1 taken.2 hparse
      rw [keptPort, hparse]
      exact hport

end Services
