/-
Purpose: The ways in which a manifest can be read.
Main exports: Strategy, Strategy.label, Strategy.isExternal
-/
import PackageLayers.Path.Basic

namespace PackageLayers.Manifest

/-- A way of reading a manifest: by a helper program, by the toolchain's own dump
of the package, or from the text alone. -/
inductive Strategy where
  | helper (command : Path)
  | toolchainDump (swift : Path)
  | syntactic
deriving Repr, Inhabited, DecidableEq

namespace Strategy

/-- The name of a strategy. -/
def label : Strategy → String
  | .helper _ => "helper"
  | .toolchainDump _ => "toolchain-dump"
  | .syntactic => "syntactic"

/-- Whether a strategy runs another program. -/
def isExternal : Strategy → Bool
  | .syntactic => false
  | _ => true

end Strategy

end PackageLayers.Manifest
