/-
This file models the FEC transport (`Transport` in `yip-transport/src/lib.rs`): the encoder, one
reassembler and one redundancy controller per flow class, and the one symbol size that overrides
that of every class.
-/

import Yip.Transport.Recovery

namespace Yip

open Transport

/-- The classifier of flows and the controllers of the repair rate. -/
structure Heuristics where
  Classifier : Type
  newClassifier : Classifier
  classify : Classifier → List Byte → Bool → Nat → Classifier × FlowClass
  observeIngress : Classifier → List Byte → Bool → Nat → Classifier
  Controller : Type
  newFor : FlowClass → Controller
  repairCount : Controller → Nat → Nat
  observeLoss : Controller → Nat → Nat → Controller
  setRatio : Controller → Nat → Controller

/-- The forward error correction of a session: one encoder, and a reassembler for each class. -/
structure Transport (env : Heuristics) where
  classifier : env.Classifier
  encoder : FecEncoder
  controllers : FlowClass → env.Controller
  reassemblers : FlowClass → Option FecReassembler
  symbolSize : Nat

namespace Transport

variable {env : Heuristics}

def new (env : Heuristics) (symbolSize : Nat) : Transport env where
  classifier := env.newClassifier
  encoder := FecEncoder.new
  controllers := env.newFor
  reassemblers := fun _ => none
  symbolSize := symbolSize

def setShard (transport : Transport env) (shardId numShards : Nat) : Transport env :=
  { transport with
    encoder := transport.encoder.setShard (shardId % 65536) (numShards % 65536) }

/-- Sets the symbol size for the encoder and for the reassemblers there are. -/
def setSymbolSize (transport : Transport env) (symbolSize : Nat) : Transport env :=
  { transport with
    symbolSize := symbolSize
    reassemblers := fun flow => (transport.reassemblers flow).map (·.setSymbolSize symbolSize) }

def paramsFor (transport : Transport env) (flow : FlowClass) : FlowParams :=
  { flow.params with symbolSize := transport.symbolSize }

/-- The symbols of a packet, of the class the classifier gives it. -/
def encode (transport : Transport env) (ciphertext inner : List Byte) (l2 : Bool) (nowMs : Nat) :
    Transport env × FlowClass × List Symbol :=
  let (classifier, flow) := env.classify transport.classifier inner l2 nowMs
  let params := transport.paramsFor flow
  let source := max (sourceCount ciphertext.length params.symbolSize) 1
  let repair := env.repairCount (transport.controllers flow) source
  let (encoder, symbols) := transport.encoder.encode ciphertext params repair
  ({ transport with classifier := classifier, encoder := encoder }, flow, symbols)

def maxObjects : Nat := 256

/-- The reassembler of a class, made when its first symbol comes. -/
def reassembler (transport : Transport env) (flow : FlowClass) : FecReassembler :=
  (transport.reassemblers flow).getD (FecReassembler.new transport.symbolSize maxObjects)

/-- One more symbol of an object, and the object if it is complete. -/
def decode (transport : Transport env) (objectKey : Nat) (symbol : Symbol) (flow : FlowClass)
    (nowMs : Nat) : Transport env × Option (List Byte) :=
  let (re, object) := (transport.reassembler flow).push objectKey symbol nowMs
    (transport.paramsFor flow).deadlineMs
  ({ transport with
      reassemblers := fun other =>
        if other = flow then some re else transport.reassemblers other }, object)

def observeIngress (transport : Transport env) (inner : List Byte) (l2 : Bool) (nowMs : Nat) :
    Transport env :=
  { transport with classifier := env.observeIngress transport.classifier inner l2 nowMs }

/-- More repair symbols for an object sent before. -/
def repairObject (transport : Transport env) (ciphertext : List Byte) (flow : FlowClass)
    (objectId extraRepair : Nat) : Transport env × List Symbol :=
  let (encoder, symbols) := transport.encoder.repairWithId ciphertext (transport.paramsFor flow)
    objectId extraRepair
  ({ transport with encoder := encoder }, symbols)

def observeLoss (transport : Transport env) (flow : FlowClass) (numerator denominator : Nat) :
    Transport env :=
  { transport with
    controllers := fun other =>
      if other = flow then env.observeLoss (transport.controllers flow) numerator denominator
      else transport.controllers other }

def setFecRepairRatio (transport : Transport env) (percent : Nat) : Transport env :=
  { transport with controllers := fun flow => env.setRatio (transport.controllers flow) percent }

end Transport

end Yip
