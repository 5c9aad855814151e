import Houdini.Runtime.Value

/-! The parts of the configuration file that the cache reads. -/

set_option autoImplicit false

namespace Houdini.Runtime

structure TypeConfig where
  keys : Option (List String) := none
  deriving DecidableEq, Repr

/-- `unmarshal` finds the function of a custom scalar. -/
structure ConfigFile where
  defaultKeys : List String := ["id"]
  types : List (String × TypeConfig) := []
  unmarshal : String → Option (GraphQLValue → GraphQLValue) := fun _ => none
  cacheBufferSize : Nat := 10
  defaultLifetime : Option Nat := none

/-- The key fields of a type. The file can replace the entry that `Node` has by default. -/
def keyFieldsForType (configFile : ConfigFile) (type : String) : List String :=
  let keys :=
    match configFile.types.lookup type with
    | some typeConfig => typeConfig.keys
    | none => if type = "Node" then some ["id"] else none
  keys.getD configFile.defaultKeys

/-- The key fields of an object, each followed by `__` except for the last one. -/
def computeID (configFile : ConfigFile) (type : String) (data : GraphQLObject) : String :=
  "__".intercalate ((keyFieldsForType configFile type).map fun field =>
    (data.property field).propertyKey)

end Houdini.Runtime
