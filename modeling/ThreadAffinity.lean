import ThreadAffinity.Backend
import ThreadAffinity.Bind
import ThreadAffinity.CpuList.Item
import ThreadAffinity.CpuList.Number
import ThreadAffinity.CpuList.Parser
import ThreadAffinity.CpuList.Printer
import ThreadAffinity.Dialogue
import ThreadAffinity.Error
import ThreadAffinity.Event
import ThreadAffinity.Flat.Backend
import ThreadAffinity.Flat.Editor
import ThreadAffinity.Flat.Request
import ThreadAffinity.Flat.Script
import ThreadAffinity.Flat.Transcript
import ThreadAffinity.Grouped.Backend
import ThreadAffinity.Grouped.Editor
import ThreadAffinity.Grouped.Pending
import ThreadAffinity.Grouped.Query
import ThreadAffinity.Grouped.Request
import ThreadAffinity.Grouped.Script
import ThreadAffinity.Grouped.Transcript
import ThreadAffinity.Linux.Backend
import ThreadAffinity.Linux.Request
import ThreadAffinity.Linux.Script
import ThreadAffinity.Linux.Transcript
import ThreadAffinity.Mask
import ThreadAffinity.Mask.Recipe
import ThreadAffinity.Mask.Step
import ThreadAffinity.NativeSet
import ThreadAffinity.NativeSet.Step
import ThreadAffinity.Refusal
import ThreadAffinity.Session
import ThreadAffinity.Session.Step
import ThreadAffinity.Session.Table
import ThreadAffinity.Thread
import ThreadAffinity.Topology.Decode
import ThreadAffinity.Topology.Encode
import ThreadAffinity.Topology.Group
import ThreadAffinity.Topology.LittleEndian
import ThreadAffinity.Topology.Problem
import ThreadAffinity.Value
import ThreadAffinity.Word
import ThreadAffinity.Words
import ThreadAffinity.Proofs.Enumeration
import ThreadAffinity.Proofs.Course
import ThreadAffinity.Proofs.Grouped.Turn
import ThreadAffinity.Proofs.Grouped.History
import ThreadAffinity.Proofs.Grouped.Delivery
import ThreadAffinity.Proofs.ProcessorLimit
import ThreadAffinity.Proofs.Flat.Selection
import ThreadAffinity.Proofs.Mask.FiniteSet
import ThreadAffinity.Proofs.Topology.Grammar
import ThreadAffinity.Proofs.Account
import ThreadAffinity.Proofs.Grouped.Account
import ThreadAffinity.Proofs.Session.Account
import ThreadAffinity.Proofs.Flat.Loans
import ThreadAffinity.Proofs.CpuList.RoundTrip
import ThreadAffinity.Proofs.Mask.Text
import ThreadAffinity.Proofs.Linux.Block
import ThreadAffinity.Proofs.Agreement
import ThreadAffinity.Proofs.Session.Part
import ThreadAffinity.Proofs.Session.Stay
import ThreadAffinity.Proofs.Independence
import ThreadAffinity.Proofs.Grouped.Translation
import ThreadAffinity.Proofs.Grouped.Representation
import ThreadAffinity.Proofs.Grouped.Exhaustion
import ThreadAffinity.Proofs.Erasure
import ThreadAffinity.Proofs.Grouped.Order
import ThreadAffinity.Proofs.Grouped.Connection
import ThreadAffinity.Proofs.Linux.Prefix
import ThreadAffinity.Proofs.NativeSet.Views
import ThreadAffinity.Proofs.Mask.Members
import ThreadAffinity.Proofs.CpuList.Expansion
import ThreadAffinity.Proofs.CpuList.Grammar
import ThreadAffinity.Proofs.Mask.Reading
import ThreadAffinity.Proofs.Flat.Binding
import ThreadAffinity.Proofs.SingleProcessor
import ThreadAffinity.Proofs.Topology.Layout
import ThreadAffinity.Proofs.Topology.Cursor
import ThreadAffinity.Proofs.NativeSet.Layout
import ThreadAffinity.Proofs.Grouped.Arithmetic
import ThreadAffinity.Proofs.Log
