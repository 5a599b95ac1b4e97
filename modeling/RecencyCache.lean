import RecencyCache.Key.Caseless
import RecencyCache.Proofs.Cache.Balance
import RecencyCache.Proofs.Cache.Inclusion
import RecencyCache.Proofs.Cache.Residency
import RecencyCache.Proofs.Cache.Safety
import RecencyCache.Proofs.Queue.Conservation
import RecencyCache.Proofs.Table.Accounting
import RecencyCache.Proofs.Table.Breach
import RecencyCache.Proofs.Table.Conservation
import RecencyCache.Proofs.Table.Detection
import RecencyCache.Proofs.Table.Renewal
import RecencyCache.Proofs.Table.Shortcut
import RecencyCache.Stats.Printer
import RecencyCache.Stats.Reader
import RecencyCache.Table.Tamper
import RecencyCache.Proofs.Table.Walk
import RecencyCache.Proofs.Table.Orbit
import RecencyCache.Proofs.Table.Answers
import RecencyCache.Proofs.Table.Sequence
import RecencyCache.Proofs.Table.Confinement
import RecencyCache.Proofs.Cache.Endurance
import RecencyCache.Proofs.Stats.Export
