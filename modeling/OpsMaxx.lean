import OpsMaxx.Addy.KeptEdits
import OpsMaxx.Addy.Floor
import OpsMaxx.Addy.InFlight
import OpsMaxx.Approvals.Brake
import OpsMaxx.Rules.Rate
import OpsMaxx.Rules.Off
import OpsMaxx.Rules.Sweeps
import OpsMaxx.Jobs.Finished
import OpsMaxx.Jobs.Filed
import OpsMaxx.Jobs.NoGap
import OpsMaxx.Jobs.Consent
import OpsMaxx.Sidecar.Adopt
import OpsMaxx.Cron.Kept
import OpsMaxx.Cron.Fences
import OpsMaxx.Passwords.Serial
import OpsMaxx.Passwords.Opens
import OpsMaxx.Trust.Prompts
import OpsMaxx.History.Audit
import OpsMaxx.Backup.Safe
import OpsMaxx.Curl.RoundTrip
import OpsMaxx.Gate.Joined
import OpsMaxx.Sidecar.Confirmed
import OpsMaxx.Sidecar.Delivered
import OpsMaxx.Sudoers.Understated
import OpsMaxx.Vpn.Recorded
import OpsMaxx.Transfer.StandAlone
import OpsMaxx.Vpn.Refused
import OpsMaxx.Drift.Whole
import OpsMaxx.CredProxy.Lasting
import OpsMaxx.Trust.Moves
import OpsMaxx.Trust.HostKeys
import OpsMaxx.Trust.Arrived
import OpsMaxx.Rules.Restart
import OpsMaxx.Jobs.Middle
import OpsMaxx.Alerts.Endpoint
import OpsMaxx.Risk.Sudo
import OpsMaxx.Frp.Agree
import OpsMaxx.Strings.Utf8Stream
import OpsMaxx.Jobs.Cursor
import OpsMaxx.Relaxed.Agree
import OpsMaxx.Jobs.Starved
import OpsMaxx.Routing.Canonical
import OpsMaxx.Wg.Complete
import OpsMaxx.Redact.Known
import OpsMaxx.Access.Agree
import OpsMaxx.Patch.Once
import OpsMaxx.Proxy.Bounded
import OpsMaxx.SshConfig.Resolved
import OpsMaxx.KnownHosts.Lookup
import OpsMaxx.ApiUrl.RoundTrip
import OpsMaxx.Reap.Spared
import OpsMaxx.Curl.Indistinct
import OpsMaxx.Queries.Hidden
