import ServiceManager.Repository.Composed
import ServiceManager.AddSys.Soundness
import ServiceManager.AddSys.AllOrNothing
import ServiceManager.AddSys.Engine
import ServiceManager.AddSys.Room
import ServiceManager.AddSys.Reimport
import ServiceManager.AddSys.Commute
import ServiceManager.AddSys.SharedPages
import ServiceManager.AddSys.SingleValued
import ServiceManager.AddSys.Contents
import ServiceManager.AddSys.View
import ServiceManager.AddSys.Documents
import ServiceManager.Wsrpc.RoundTrip
import ServiceManager.Wsrpc.Reply
import ServiceManager.Wsrpc.Await
import ServiceManager.Wsrpc.Matching
import ServiceManager.Wsrpc.Meanwhile
import ServiceManager.Wsrpc.ExactlyOnce
import ServiceManager.Wsrpc.Wire
import ServiceManager.Wsrpc.Server
import ServiceManager.Wsrpc.Listener
import ServiceManager.Backend.Lookup
import ServiceManager.Event.Dispatch
import ServiceManager.Manager.Clients
import ServiceManager.Wsrpcgen.Versions
import ServiceManager.Wsrpcgen.Deliver
import ServiceManager.Wsrpcgen.EndToEnd
import ServiceManager.Wsrpcgen.Parse
import ServiceManager.Wsrpcgen.Spelling
import ServiceManager.Wsrpcgen.Printing
import ServiceManager.Wsrpcgen.Codec
import ServiceManager.Event.Signals
import ServiceManager.Wsrpc.Bounds
import ServiceManager.Traversal
import ServiceManager.Lemon
import ServiceManager.Wsrpcgen.Imports
import ServiceManager.Wsrpcgen.Idl
import ServiceManager.Wsrpcgen.Nesting
import ServiceManager.Wsrpcgen.Scope
import ServiceManager.Wsrpcgen.Enum
import ServiceManager.Wsrpcgen.Canonical
import ServiceManager.Scoping
import ServiceManager.Wsrpcgen.Emit
import ServiceManager.Wsrpcgen.WellScoped.Templates
import ServiceManager.Wsrpcgen.WellScoped.Types
import ServiceManager.Wsrpcgen.WellScoped.Calls
import ServiceManager.Wsrpcgen.WellScoped.Cases
import ServiceManager.Wsrpcgen.WellScoped
import ServiceManager.Event.KQueue
import ServiceManager.Event.Drivers
import ServiceManager.AddSys.Elements
import ServiceManager.AddSys.Dependencies
import ServiceManager.AddSys.Bundle
import ServiceManager.Ucl.Schema
import ServiceManager.AddSys.BundleSchema
import ServiceManager.Sql.Statement
import ServiceManager.AddSys.Format
import ServiceManager.Event.Tables
import ServiceManager.Event.Rollback
import ServiceManager.Event.Watching
import ServiceManager.Event.Machine
import ServiceManager.Event.LiveTimers
import ServiceManager.Event.Timers
import ServiceManager.Event.TimerIds
import ServiceManager.Event.Expiry
import ServiceManager.Event.Ranges
import ServiceManager.Regex
import ServiceManager.Scanner
import ServiceManager.Wsrpcgen.Lexer
import ServiceManager.Wsrpcgen.Identifiers
import ServiceManager.Wsrpcgen.Colons
import ServiceManager.Core.Timespec
import ServiceManager.Strtok
import ServiceManager.Core.ForkAndWait
import ServiceManager.Wsrpcgen.Positions
import ServiceManager.Refs
import ServiceManager.Wsrpc.Ownership
import ServiceManager.Event.SelfPipe
