import ScriptFront.Files

/-!
# Hosts

A **host** is what a command needs from the world outside: files, the standard input, variables,
the clock, and the word that the user wants to stop. Commands are written for any monad that
offers these; over a snapshot of the files they are functions.
-/

namespace ScriptFront

open Text

/-- The world outside, as a command sees it. -/
structure Host (m : Type → Type) where
  environment : Bytes → m (Option Bytes)
  readFile : Bytes → m (Except ReadFault Bytes)
  /-- All of the standard input, or what went wrong while reading it. -/
  readInput : m (Except Bytes Bytes)
  /-- Can changes be watched at this path? -/
  canWatch : Bytes → m (Except ReadFault Unit)
  /-- Does the user want to stop? -/
  isCancelled : m Bool
  /-- The order in which a number of jobs that are started together come to their end. -/
  schedule : Nat → List Nat
  /-- Runs an action and tells how long it took. -/
  timed : {α : Type} → m α → m (α × Bytes)
  /-- What the tool was built with. -/
  toolchain : Bytes
  /-- What the tool runs on. -/
  platform : Bytes

/-- What the files do not tell about the world. -/
structure Surroundings where
  environment : List (Bytes × Bytes) := []
  input : Except Bytes Bytes := .ok []
  isCancelled : Bool := false
  schedule : Nat → List Nat := List.range
  elapsed : Bytes := utf8 "0s"
  toolchain : Bytes := []
  platform : Bytes := []

/-- The host over files that **do not change** while a command runs: what comes of reading a path,
and of watching it. -/
def Surroundings.host (s : Surroundings) (readFile : Bytes → Except ReadFault Bytes)
    (canWatch : Bytes → Except ReadFault Unit) : Host Id where
  environment name := s.environment.lookup name
  readFile := readFile
  readInput := s.input
  canWatch := canWatch
  isCancelled := s.isCancelled
  schedule := s.schedule
  timed x := (x, s.elapsed)
  toolchain := s.toolchain
  platform := s.platform

/-- The host over a **snapshot**. -/
def Snapshot.host (files : Snapshot) (s : Surroundings) : Host Id :=
  s.host files.read fun path => (files.find path).map fun _ => ()

end ScriptFront
