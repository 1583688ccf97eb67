import TypedLoader.Loader.Load
import TypedLoader.Loader.Watch
import TypedLoader.LogFormat
import TypedLoader.Proofs.Analysis.Complete
import TypedLoader.Proofs.Analysis.Edits
import TypedLoader.Proofs.Checker.Exchange
import TypedLoader.Proofs.Checker.Reported
import TypedLoader.ScriptedCompiler.Basic
import TypedLoader.Proofs.Analysis.Faithful
import TypedLoader.Proofs.Checker.Recorded
import TypedLoader.Proofs.Program
import TypedLoader.Proofs.Checker.Content
import TypedLoader.Proofs.Checker.Turns
import TypedLoader.Proofs.Loader.Forked
import TypedLoader.Proofs.Alone
import TypedLoader.Proofs.Cache.Output
import TypedLoader.Proofs.Checker.Delivery
import TypedLoader.Proofs.Checker.Pending
import TypedLoader.Proofs.Checker.Rest
import TypedLoader.Proofs.Checker.Replay
import TypedLoader.Proofs.Loader.Cached
import TypedLoader.Proofs.Analysis.Fetched
import TypedLoader.Proofs.Analysis.Ledger
import TypedLoader.Proofs.Passes
import TypedLoader.Proofs.Loader.Alongside
import TypedLoader.Proofs.FileStore.Entries
import TypedLoader.Proofs.Loader.Unchecked
import TypedLoader.Loader.Provider
import TypedLoader.Proofs.Checker.Commuting
import TypedLoader.Proofs.Loader.Sharing
import TypedLoader.Proofs.Config.Layers
import TypedLoader.Proofs.Config.Encoded
import TypedLoader.Proofs.Config.ListKeys
import TypedLoader.Proofs.Config.Escapes
import TypedLoader.Proofs.Config.Bases
import TypedLoader.Proofs.Analysis.Released
import TypedLoader.Proofs.Analysis.Contained
import TypedLoader.Proofs.Dependencies.Chain
import TypedLoader.Proofs.Dependencies.Render
import TypedLoader.Proofs.Dependencies.History
import TypedLoader.Proofs.Dependencies.Routes
import TypedLoader.Proofs.Checker.Repeated
import TypedLoader.Proofs.Checker.Failing
import TypedLoader.Proofs.Debouncer
import TypedLoader.Proofs.LineMap
import TypedLoader.Proofs.Diagnostic
import TypedLoader.Proofs.Checker.Findings
import TypedLoader.Proofs.Loader.Accounting
import TypedLoader.Proofs.Loader.Refreshed
import TypedLoader.Proofs.Diagnostic.Outline
import TypedLoader.Proofs.Diagnostic.Skipped
import TypedLoader.Proofs.LineMap.Order
import TypedLoader.Proofs.Emitting
import TypedLoader.Proofs.Cache.Key
import TypedLoader.Proofs.Cache.History
import TypedLoader.Proofs.Path.Raw
