import ServerEngine.Core.Status

/-! # Project configuration

The validated configuration, and what of it the builder and the runtime read: the target ABI.
-/
namespace ServerEngine

inductive AbiTarget
  | windowsX64
  | posixX64
  deriving DecidableEq

structure AbiConfiguration where
  target : AbiTarget := .windowsX64
  pack : Nat := 8

/-- `is_supported_abi_configuration`; every target of the type is supported. -/
def AbiConfiguration.supported (abi : AbiConfiguration) : Bool :=
  abi.pack == 1 || abi.pack == 2 || abi.pack == 4 || abi.pack == 8 || abi.pack == 16

inductive ProjectItemRole
  | type
  | source
  | project

structure ProjectItemConfiguration where
  path : Bytes
  role : ProjectItemRole
  canonicalPath : Bool

/-- `materialized` is false where only the execution metadata of a saved baseline is known. -/
structure ProjectConfiguration where
  version : UInt32
  name : Bytes
  project : List ProjectItemConfiguration
  abiTarget : AbiTarget
  abiPack : UInt32
  materialized : Bool

def currentProjectConfigurationVersion : UInt32 := 1

def isSupportedAbiPack (pack : UInt32) : Bool :=
  pack == 1 || pack == 2 || pack == 4 || pack == 8 || pack == 16

end ServerEngine
